import KernelIR.Proofs.Arena.Step

/-!
# The index of uses

The use lists say what the operands of the live statements say, turned around: a use stands in the
list of a statement exactly if its slot holds that statement, and it stands there once. No step of a
view breaks this. An operand that has not been created yet is in the index like any other, and a
tombstone is in it for nothing that it held.
-/

namespace KernelIR

namespace View

/-- The use lists hold what live statements read, once each. -/
structure Indexed (v : View) : Prop where
  hasStmt_of_kind : ∀ s, (v.kind? s).isSome = true → v.HasStmt s
  hasStmt_of_erased : ∀ s, v.erased s = true → v.HasStmt s
  nodup_uses : ∀ t, (v.uses t).Nodup
  mem_uses : ∀ t u, u ∈ v.uses t ↔ v.reading? u = some t

/-! ## The uses of one statement -/

theorem mem_readings {s t : StmtId} {k : Kind} {u : Use} :
    (t, u) ∈ Arena.readings s k ↔ u.user = s ∧ k.operands[u.slot]? = some t := by
  rcases u with ⟨user, slot⟩
  simp only [Arena.readings, List.mem_map, Prod.mk.injEq, Use.mk.injEq, Prod.exists]
  constructor
  · rintro ⟨operand, i, hmem, rfl, rfl, rfl⟩
    exact ⟨rfl, List.mk_mem_zipIdx_iff_getElem?.1 hmem⟩
  · rintro ⟨rfl, hslot⟩
    exact ⟨t, slot, List.mk_mem_zipIdx_iff_getElem?.2 hslot, rfl, rfl, rfl⟩

theorem mem_usesBy {s t : StmtId} {k : Kind} {u : Use} :
    u ∈ usesBy s k t ↔ u.user = s ∧ k.operands[u.slot]? = some t := by
  rw [← mem_readings]
  simp only [usesBy, List.mem_map, List.mem_filter, decide_eq_true_eq]
  constructor
  · rintro ⟨⟨operand, use⟩, ⟨hmem, rfl⟩, rfl⟩
    exact hmem
  · intro h
    exact ⟨(t, u), ⟨h, rfl⟩, rfl⟩

theorem nodup_usesBy (s t : StmtId) (k : Kind) : (usesBy s k t).Nodup := by
  have hall : (Arena.readings s k).map Prod.snd =
      (k.operands.zipIdx.map Prod.snd).map fun slot => ⟨s, slot⟩ := by
    simp only [Arena.readings, List.map_map]
    rfl
  have hinj : Function.Injective fun slot : Nat => (⟨s, slot⟩ : Use) := by
    intro i j hij
    exact (Use.mk.inj hij).2
  have hslots : (k.operands.zipIdx.map Prod.snd).Nodup := by
    simp [List.nodup_range']
  have hnodup : ((Arena.readings s k).map Prod.snd).Nodup := hall ▸ hslots.map hinj
  exact hnodup.sublist (List.filter_sublist.map Prod.snd)

/-! ## Redirecting, seen from a slot -/

variable {v : View}

theorem operands_redirect (v : View) (old new s : StmtId) :
    (v.redirect old new).operands s =
      if v.erased s then v.operands s else (v.operands s).map (turn old new) := by
  simp only [redirect, operands]
  split
  case isTrue => rfl
  case isFalse =>
    cases v.kind? s with
    | none => rfl
    | some k =>
        have hmap : k.operands.mapIdx (fun _ => turn old new) = k.operands.map (turn old new) := by
          apply List.ext_getElem <;> simp
        simp [hmap]

theorem children_redirect (v : View) (old new s : StmtId) :
    (v.redirect old new).children s = v.children s := by
  simp only [redirect, children]
  split
  case isTrue => rfl
  case isFalse => cases v.kind? s <;> simp

theorem reading?_redirect (v : View) (old new : StmtId) (u : Use) :
    (v.redirect old new).reading? u = (v.reading? u).map (turn old new) := by
  have herased : (v.redirect old new).erased = v.erased := rfl
  simp only [reading?, operands_redirect, herased]
  cases v.erased u.user <;> simp

theorem reading?_erase (v : View) (doomed : List StmtId) (u : Use) :
    (v.erase doomed).reading? u = if u.user ∈ doomed then none else v.reading? u := by
  by_cases hu : u.user ∈ doomed <;> simp [reading?, operands, View.erase, hu]

/-! ## Every step keeps the index -/

namespace Indexed

theorem kind_of_not_hasStmt (h : v.Indexed) {s : StmtId} (hs : ¬ v.HasStmt s) :
    v.kind? s = none := by
  rcases hk : v.kind? s with _ | k
  · rfl
  · exact absurd (h.hasStmt_of_kind s (by simp [hk])) hs

theorem children_of_not_hasStmt (h : v.Indexed) {s : StmtId} (hs : ¬ v.HasStmt s) :
    v.children s = [] := by
  simp [children, h.kind_of_not_hasStmt hs]

theorem operands_of_not_hasStmt (h : v.Indexed) {s : StmtId} (hs : ¬ v.HasStmt s) :
    v.operands s = [] := by
  simp [operands, h.kind_of_not_hasStmt hs]

theorem live_of_not_hasStmt (h : v.Indexed) {s : StmtId} (hs : ¬ v.HasStmt s) :
    v.erased s = false := by
  rw [← Bool.not_eq_true]
  exact fun herased => hs (h.hasStmt_of_erased s herased)

/-- A slot of a statement that was not created reads nothing. -/
theorem reading?_of_not_hasStmt (h : v.Indexed) {u : Use} (hu : ¬ v.HasStmt u.user) :
    v.reading? u = none := by
  have hkind := h.kind_of_not_hasStmt hu
  cases herased : v.erased u.user <;> simp [reading?, operands, hkind, herased]

theorem hasStmt_user (h : v.Indexed) {t : StmtId} {u : Use} (hu : u ∈ v.uses t) :
    v.HasStmt u.user := by
  by_contra hn
  have hread := (h.mem_uses t u).1 hu
  rw [h.reading?_of_not_hasStmt hn] at hread
  cases hread

/-- The slots of a new statement read what its kind says. -/
theorem reading?_createStmt (h : v.Indexed) (k : Kind) (ty : ScalarType) (u : Use) :
    (v.createStmt k ty).reading? u =
      if u.user = ⟨v.stmtCount⟩ then k.operands[u.slot]? else v.reading? u := by
  have hlive : v.erased ⟨v.stmtCount⟩ = false := h.live_of_not_hasStmt (Nat.lt_irrefl _)
  by_cases hu : u.user = ⟨v.stmtCount⟩
  · simp [reading?, operands, View.createStmt, hu, hlive]
  · simp [reading?, operands, View.createStmt, hu]

theorem createStmt (h : v.Indexed) (k : Kind) (ty : ScalarType) : (v.createStmt k ty).Indexed := by
  -- The new handle may have been read before, but it was no reader.
  have hnew : ¬ v.HasStmt ⟨v.stmtCount⟩ := Nat.lt_irrefl _
  have hgrow : ∀ s, v.HasStmt s → (v.createStmt k ty).HasStmt s := fun s hs =>
    Nat.lt_succ_of_lt hs
  refine ⟨?_, fun s hs => hgrow s (h.hasStmt_of_erased s hs), ?_, ?_⟩
  · intro s hs
    by_cases hsNew : s = ⟨v.stmtCount⟩
    · rw [hsNew]
      exact Nat.lt_succ_self _
    · apply hgrow
      apply h.hasStmt_of_kind
      simpa [View.createStmt, hsNew] using hs
  · intro t
    refine List.Nodup.append (h.nodup_uses t) (nodup_usesBy _ t k) ?_
    intro u hu huNew
    have hissued := h.hasStmt_user hu
    rw [(mem_usesBy.1 huNew).1] at hissued
    exact hnew hissued
  · intro t u
    show u ∈ v.uses t ++ usesBy ⟨v.stmtCount⟩ k t ↔ _
    rw [List.mem_append, mem_usesBy, h.mem_uses, h.reading?_createStmt]
    by_cases hu : u.user = ⟨v.stmtCount⟩
    · have hnone : v.reading? u = none := h.reading?_of_not_hasStmt (by rwa [hu])
      simp [hu, hnone]
    · simp [hu]

theorem redirect (h : v.Indexed) {old new : StmtId} (hne : old ≠ new) :
    (v.redirect old new).Indexed := by
  refine ⟨?_, h.hasStmt_of_erased, ?_, ?_⟩
  · intro s hs
    apply h.hasStmt_of_kind
    simp only [View.redirect] at hs
    split at hs
    · exact hs
    · simpa using hs
  · intro t
    simp only [View.redirect, Function.update_apply]
    split
    -- A slot holds one statement, so no use stands in the lists of both.
    · refine List.Nodup.append (h.nodup_uses new) (h.nodup_uses old) ?_
      intro u hnew hold
      have hn := (h.mem_uses new u).1 hnew
      have ho := (h.mem_uses old u).1 hold
      rw [hn] at ho
      exact hne (Option.some.inj ho).symm
    · split
      · exact List.nodup_nil
      · exact h.nodup_uses t
  · intro t u
    rw [reading?_redirect]
    simp only [View.redirect, Function.update_apply]
    split
    case isTrue ht =>
      rw [List.mem_append, h.mem_uses, h.mem_uses, ht]
      rcases hread : v.reading? u with _ | x
      · simp
      · by_cases hx : x = old <;> simp [turn, hx]
    case isFalse ht =>
      split
      case isTrue hold =>
        rcases hread : v.reading? u with _ | x
        · simp
        · by_cases hx : x = old
          · simp [turn, hx, hold, Ne.symm hne]
          · simp [turn, hx, hold]
      case isFalse hold =>
        rw [h.mem_uses]
        rcases hread : v.reading? u with _ | x
        · simp
        · by_cases hx : x = old
          · simp [turn, hx, Ne.symm hold, Ne.symm ht]
          · simp [turn, hx]

theorem erase (h : v.Indexed) {doomed : List StmtId} (hissued : ∀ t ∈ doomed, v.HasStmt t) :
    (v.erase doomed).Indexed := by
  refine ⟨h.hasStmt_of_kind, ?_, fun t => (h.nodup_uses t).filter _, ?_⟩
  · intro s hs
    by_cases hmem : s ∈ doomed
    · exact hissued s hmem
    · exact h.hasStmt_of_erased s (by simpa [View.erase, hmem] using hs)
  · intro t u
    rw [reading?_erase]
    show u ∈ (v.uses t).filter _ ↔ _
    rw [List.mem_filter, h.mem_uses]
    by_cases hu : u.user ∈ doomed <;> simp [hu]

/-- Every step of a view keeps the index. -/
theorem step (h : v.Indexed) {v' : View} (hstep : Step v v') : v'.Indexed := by
  cases hstep with
  | createBlock => exact ⟨h.1, h.2, h.3, h.4⟩
  | createStmt ty _ _ _ => exact h.createStmt _ ty
  | insert _ _ _ => exact ⟨h.1, h.2, h.3, h.4⟩
  | remove _ _ => exact ⟨h.1, h.2, h.3, h.4⟩
  | release _ => exact ⟨h.1, h.2, h.3, h.4⟩
  | redirect hne => exact h.redirect hne
  | exchange _ _ _ _ => exact ⟨h.1, h.2, h.3, h.4⟩
  | erase _ howns _ => exact h.erase fun t ht => (howns.enter_of_mem ht).1

end Indexed

end View

end KernelIR
