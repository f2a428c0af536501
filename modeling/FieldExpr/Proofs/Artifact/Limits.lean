import FieldExpr.Proofs.Artifact.Acceptance

/-!
# Wider limits accept more

Three gates decide whether the text of an artifact is accepted: the nesting of
the text, the depth of the program and its scopes. Each opens further as the
configuration gets wider (`Wider`), up to the greatest limit there is, and what
is parsed between them does not look at the configuration. So a text that is
read under some configuration is read as the same program under every wider one
(`Program.ofBytes_of_wider`).
-/

namespace FieldExpr

/-- The second configuration allows at least the depth of the first one, and
checks scopes only where that one does. -/
structure EngineConfig.Wider (narrow wide : EngineConfig) : Prop where
  depth : narrow.maxDepth ≤ wide.maxDepth
  checks : wide.validateOnDecode = true → narrow.validateOnDecode = true

/-! ## The gates -/

namespace Json

/-- A scan that stays within a limit stays within a greater one. -/
theorem NestingScan.excess_eq_none_of_le {limit more : Nat} (le : limit ≤ more)
    {bytes : List UInt8} :
    ∀ {s : NestingScan}, s.excess limit bytes = none →
    s.excess more bytes = none := by
  induction bytes with
  | nil => exact fun _ => rfl
  | cons b rest ih =>
    intro s within
    unfold excess at within ⊢
    dsimp only at within ⊢
    split at within
    · cases within
    · rw [if_neg (by omega)]
      exact ih within

end Json

namespace Program

variable {config narrow wide : EngineConfig} {bytes : List UInt8} {p : Program}

theorem depthLimit_le (wider : narrow.Wider wide) :
    depthLimit narrow ≤ depthLimit wide := by
  have depth : narrow.maxDepth.toNat ≤ wide.maxDepth.toNat := wider.depth
  unfold depthLimit
  omega

theorem nestingLimit_le (wider : narrow.Wider wide) :
    nestingLimit narrow ≤ nestingLimit wide := by
  have depth := depthLimit_le wider
  unfold nestingLimit
  omega

theorem accept_of_wider (wider : narrow.Wider wide) {q : Program}
    (accepted : accept narrow p = .ok q) :
    accept wide p = .ok q := by
  obtain ⟨same, shallow, valid⟩ := accept_eq_ok_iff.mp accepted
  exact accept_eq_ok_iff.mpr
    ⟨same, Nat.le_trans shallow (depthLimit_le wider),
      fun checks => valid (wider.checks checks)⟩

/-- A text is read when it passes the gates one after the other. -/
theorem ofBytes_eq_ok_iff : ofBytes config bytes = .ok p ↔
    Json.nestingExcess (nestingLimit config) bytes = none ∧ ∃ document q,
      Json.parse {} bytes = .ok document ∧
      ofArtifactUnchecked document = .ok q ∧ accept config q = .ok p := by
  unfold ofBytes
  cases nesting : Json.nestingExcess (nestingLimit config) bytes with
  | some depth => simp
  | none =>
    cases parsed : Json.parse {} bytes with
    | error error => simp
    | ok document => simp [ofArtifact, bind_eq_ok_iff]

/-- What is read under a configuration is read under every wider one. -/
theorem ofBytes_of_wider (wider : narrow.Wider wide)
    (read : ofBytes narrow bytes = .ok p) :
    ofBytes wide bytes = .ok p := by
  obtain ⟨shallow, document, q, parsed, decoded, accepted⟩ :=
    ofBytes_eq_ok_iff.mp read
  have within : Json.nestingExcess (nestingLimit wide) bytes = none :=
    Json.NestingScan.excess_eq_none_of_le (nestingLimit_le wider) shallow
  exact ofBytes_eq_ok_iff.mpr ⟨within, document, q, parsed, decoded,
    accept_of_wider wider accepted⟩

end Program

end FieldExpr
