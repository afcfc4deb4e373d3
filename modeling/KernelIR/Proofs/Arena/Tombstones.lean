import KernelIR.Proofs.Arena.Replacing

/-!
# Tombstones

An erased statement stays in the arena as it was when it went: no step brings it back, turns what it
reads, gives it a place or records a use by it. The other way round, nothing live reads a tombstone,
as long as no redirecting turns readers to one. Replacing never does, since what takes the place of
a statement is live.
-/

namespace KernelIR

/-! ## Edits that turn readers to live statements -/

namespace Edit

/-- Redirecting turns readers to a statement that is live; other edits turn none to a statement of
the caller's choice. -/
def turnsToLive (a : Arena) : Edit → Bool
  | .redirect _ new => !a.isErased new
  | _ => true

/-- No redirecting among the edits turns readers to a statement that is erased by then. -/
def allTurnToLive (a : Arena) : List Edit → Bool
  | [] => true
  | e :: es =>
    e.turnsToLive a && match (e.apply a).result with
      | .ok (_, a') => allTurnToLive a' es
      | .error _ => true

theorem turnsToLive_of_all {a : Arena} {e : Edit} {es : List Edit}
    (h : allTurnToLive a (e :: es) = true) : e.turnsToLive a = true :=
  (Bool.and_eq_true_iff.1 h).1

theorem allTurnToLive_of_apply {a a' : Arena} {e : Edit} {es : List Edit} {answer : Answer}
    (h : allTurnToLive a (e :: es) = true) (happly : (e.apply a).result = .ok (answer, a')) :
    allTurnToLive a' es = true := by
  have hrest := (Bool.and_eq_true_iff.1 h).2
  rwa [happly] at hrest

end Edit

namespace View

variable {v v' : View} {s old new : StmtId} {doomed : List StmtId}

/-! ## Nothing live reads a tombstone -/

/-- Every slot of a live statement holds a live one. -/
def ReadsLive (v : View) : Prop :=
  ∀ u t, v.reading? u = some t → v.erased t = false

namespace ReadsLive

theorem createStmt (h : v.ReadsLive) (hindexed : v.Indexed) {k : Kind} (ty : ScalarType)
    (hlive : ∀ t ∈ k.operands, v.erased t = false) : (v.createStmt k ty).ReadsLive := by
  intro u t hread
  rw [hindexed.reading?_createStmt] at hread
  split at hread
  case isTrue => exact hlive t (List.mem_of_getElem? hread)
  case isFalse => exact h u t hread

theorem redirect (h : v.ReadsLive) (hnew : v.erased new = false) (old : StmtId) :
    (v.redirect old new).ReadsLive := by
  intro u t hread
  rw [reading?_redirect, Option.map_eq_some_iff] at hread
  rcases hread with ⟨x, hx, rfl⟩
  show v.erased (turn old new x) = false
  by_cases hxo : x = old
  · rw [hxo, turn_self]
    exact hnew
  · rw [turn_of_ne hxo]
    exact h u x hx

/-- What goes is read by nothing that stays. -/
theorem erase (h : v.ReadsLive) (hindexed : v.Indexed) (hunread : v.Unread doomed) :
    (v.erase doomed).ReadsLive := by
  intro u t hread
  rw [reading?_erase] at hread
  split at hread
  case isTrue => cases hread
  case isFalse hu =>
    have ht : t ∉ doomed := fun ht => hu (hunread t ht u ((hindexed.mem_uses t u).2 hread))
    show (decide (t ∈ doomed) || v.erased t) = false
    simp [ht, h u t hread]

/-- The readers of the old statement read the new one, which is live and stays. -/
theorem replaced (h : v.ReadsLive) (hnew : v.Placeable new) (hstays : new ∉ doomed)
    (hunread : v.UnreadBut old doomed) : (v.replaced old new doomed).ReadsLive := by
  intro u t hread
  rcases reading?_eq_some.1 hread with ⟨hlive, hslot⟩
  rw [erased_replaced] at hlive ⊢
  rcases Bool.or_eq_false_iff.1 hlive with ⟨hu, hlive⟩
  rw [operands_replaced hlive, List.getElem?_map, Option.map_eq_some_iff] at hslot
  rcases hslot with ⟨x, hx, rfl⟩
  have hread' := reading?_eq_some.2 ⟨hlive, hx⟩
  by_cases hxo : x = old
  · rw [hxo, turn_self]
    simp [hstays, hnew.live]
  · have hxd : x ∉ doomed := fun hxd =>
      of_decide_eq_false hu (hunread x hxd hxo u hread')
    rw [turn_of_ne hxo]
    simp [hxd, h u x hread']

end ReadsLive

/-! ## A tombstone stays as it is -/

/-- `s` is a tombstone in `v'` and is there what it was in `v`. -/
structure Preserves (s : StmtId) (v v' : View) : Prop where
  erased : v'.erased s = true
  kind : v'.kind? s = v.kind? s
  type : v'.type? s = v.type? s
  listed : ∀ b, s ∈ v'.listed b → s ∈ v.listed b

theorem Preserves.trans {w : View} (h : Preserves s v v') (h' : Preserves s v' w) :
    Preserves s v w :=
  ⟨h'.erased, h'.kind.trans h.kind, h'.type.trans h.type, fun b hb => h.listed b (h'.listed b hb)⟩

/-- What can be placed is no tombstone. -/
theorem Placeable.ne_of_erased {t : StmtId} (ht : v.Placeable t) (hs : v.erased s = true) :
    s ≠ t := by
  rintro rfl
  rw [ht.live] at hs
  cases hs

theorem Step.preserves (h : v.Indexed) (hstep : Step v v') (hs : v.erased s = true) :
    Preserves s v v' := by
  have hsame : Preserves s v v := ⟨hs, rfl, rfl, fun _ => id⟩
  cases hstep with
  | createBlock => exact { hsame with }
  | createStmt ty _ _ _ =>
      -- The new handle is one that was not issued, and a tombstone was.
      have hne : s ≠ ⟨v.stmtCount⟩ := by
        rintro rfl
        exact Nat.lt_irrefl _ (h.hasStmt_of_erased _ hs)
      exact { hsame with
        kind := Function.update_of_ne hne _ _
        type := Function.update_of_ne hne _ _ }
  | insert ht _ hi =>
      refine { hsame with listed := fun c hc => ?_ }
      rcases (Linked.mem_listed_insert hi).1 hc with ⟨rfl, _⟩ | hc
      · exact absurd rfl (ht.ne_of_erased hs)
      · exact hc
  | remove _ _ => exact { hsame with listed := fun c hc => (Linked.mem_listed_remove.1 hc).1 }
  | release _ => exact { hsame with }
  | redirect _ => exact { hsame with kind := if_pos hs }
  | @exchange b old new hnew _ _ _ =>
      refine { hsame with listed := fun c hc => ?_ }
      by_cases hcb : c = b
      · subst hcb
        have hset : s ∈ (v.listed c).set ((v.listed c).idxOf old) new := by
          simpa [View.exchange] using hc
        rcases List.mem_or_eq_of_mem_set hset with hmem | rfl
        · exact hmem
        · exact absurd rfl (hnew.ne_of_erased hs)
      · rwa [Linked.listed_exchange_of_ne v hcb] at hc
  | erase _ _ _ => exact { hsame with erased := by simp [View.erase, hs] }

theorem Steps.preserves (h : v.Indexed) (hsteps : Steps v v') (hs : v.erased s = true) :
    Preserves s v v' := by
  induction hsteps with
  | refl => exact ⟨hs, rfl, rfl, fun _ => id⟩
  | tail hbefore hlast ih => exact ih.trans (hlast.preserves (h.steps hbefore) ih.erased)

end View

/-! ## Runs of edits -/

namespace Edit

variable {a a' : Arena} {answer : Answer}

/-- An edit that turns readers, if any, to a live statement leaves nothing live that reads a
tombstone. -/
theorem readsLive_of_apply (h : a.Arises) (hlive : a.view.ReadsLive) {e : Edit}
    (hturns : e.turnsToLive a = true) (happly : (e.apply a).result = .ok (answer, a')) :
    a'.view.ReadsLive := by
  cases e with
  | createBlock =>
      rw [(apply_createBlock_eq_ok.1 happly).2, Arena.view_createBlock]
      exact hlive
  | createStmt k ty =>
      rcases apply_createStmt_eq_ok.1 happly with ⟨s, hcreate, _⟩
      rcases Arena.of_createStmt hcreate with ⟨_, hoperands, _, _, hview⟩
      exact hview ▸ hlive.createStmt h.indexed ty hoperands
  | push b s =>
      rcases Arena.of_push (apply_push_eq_ok.1 happly).2 with ⟨_, _, hview⟩
      exact hview ▸ hlive
  | insertBefore b before s =>
      rcases Arena.of_insertBefore (apply_insertBefore_eq_ok.1 happly).2 with ⟨_, _, _, hview⟩
      exact hview ▸ hlive
  | remove b s =>
      rcases Arena.of_remove (apply_remove_eq_ok.1 happly).2 with ⟨_, _, hview⟩
      exact hview ▸ hlive
  | detachBlock b =>
      rcases apply_detachBlock_eq_ok.1 happly with ⟨former, hdetach, _⟩
      rcases Arena.of_detachBlock hdetach with ⟨_, _, hview⟩
      exact hview ▸ hlive
  | erase s =>
      rcases apply_erase_eq_ok.1 happly with ⟨_, e, herase, rfl⟩
      rcases Arena.of_erase h.indexed herase with ⟨_, doomed, _, hunread, hview, _⟩
      exact hview ▸ hlive.erase h.indexed hunread
  | redirect old new =>
      have hnew : a.isErased new = false := by simpa [turnsToLive] using hturns
      have hredirect := (apply_redirect_eq_ok.1 happly).2
      by_cases hne : old = new
      · simp only [Arena.redirect, if_pos hne, pure_eq_ok] at hredirect
        exact hredirect ▸ hlive
      · exact Arena.of_redirect h.indexed hne hredirect ▸ hlive.redirect hnew old
  | replace old new =>
      rcases apply_replace_eq_ok.1 happly with ⟨_, e, hreplace, rfl⟩
      rcases Arena.replaced_of_replace h hreplace with
        ⟨hne, hnew, doomed, howns, hunread, hview⟩
      have hstays := h.linked.not_mem_owned hnew howns hne
      exact hview ▸ hlive.replaced hnew hstays hunread

theorem readsLive_of_applyAll {edits : List Edit} (h : a.Arises) (hlive : a.view.ReadsLive)
    (hturn : allTurnToLive a edits = true) (happly : (applyAll a edits).result = .ok a') :
    a'.view.ReadsLive := by
  induction edits generalizing a with
  | nil =>
      have hsame : a = a' := by simpa [applyAll] using happly
      exact hsame ▸ hlive
  | cons e edits ih =>
      simp only [applyAll, Logged.result_bind_eq_ok, Prod.exists] at happly
      rcases happly with ⟨answer, a₁, hfirst, hrest⟩
      have hlive₁ := readsLive_of_apply h hlive (turnsToLive_of_all hturn) hfirst
      exact ih (h.apply hfirst) hlive₁ (allTurnToLive_of_apply hturn hfirst) hrest

end Edit

namespace Arena

variable {a a' : Arena}

theorem readsLive_empty : empty.view.ReadsLive := by
  intro u t hread
  simp [view_empty, View.reading?, View.operands] at hread

/-- The kind of a statement reads its slots. -/
theorem reading?_of_mem_operands {s t : StmtId} {k : Kind} (hk : a.kind s = .ok k)
    (hs : a.isErased s = false) (ht : t ∈ k.operands) :
    ∃ slot, a.view.reading? ⟨s, slot⟩ = some t := by
  rcases List.mem_iff_getElem?.1 ht with ⟨slot, hslot⟩
  refine ⟨slot, View.reading?_eq_some.2 ⟨hs, ?_⟩⟩
  rwa [View.operands_of_kind (kind_eq_ok.1 hk)]

/-- Edits that do not redirect to a tombstone leave nothing live that reads one. And whatever edits
are made, a tombstone stays one, with the kind and the type that it had, without a parent, in no
block that did not list it when it went, and in no use list as a user. -/
theorem tombstones_stay :
    (∀ edits a, (Edit.applyAll empty edits).result = .ok a →
      Edit.allTurnToLive empty edits = true →
        ∀ s k, a.isErased s = false → a.kind s = .ok k →
          ∀ t ∈ k.operands, a.isErased t = false) ∧
      ∀ before a, (Edit.applyAll empty before).result = .ok a → ∀ s, a.isErased s = true →
        ∀ after a', (Edit.applyAll a after).result = .ok a' →
          a'.isErased s = true ∧ a'.kind s = a.kind s ∧ a'.type s = a.type s ∧
            a'.parent s = .ok none ∧
            (∀ b stmts', a'.listing b = .ok stmts' → s ∈ stmts' →
              ∃ stmts, a.listing b = .ok stmts ∧ s ∈ stmts) ∧
            ∀ t, ∀ u ∈ a'.usesOf t, u.user ≠ s := by
  constructor
  · intro edits a hedits hturn s k hs hk t ht
    have hlive := Edit.readsLive_of_applyAll ⟨[], rfl⟩ readsLive_empty hturn hedits
    rcases reading?_of_mem_operands hk hs ht with ⟨slot, hread⟩
    exact hlive _ t hread
  · intro before a hbefore s hs after a' hafter
    have harises : a.Arises := ⟨before, hbefore⟩
    have harises' : a'.Arises := harises.applyAll hafter
    have hsteps := Edit.steps_of_applyAll harises.indexed hafter
    have hkept := hsteps.preserves harises.indexed hs
    have hissued := harises.indexed.hasStmt_of_erased s hs
    have hissued' := harises'.indexed.hasStmt_of_erased s hkept.erased
    refine ⟨hkept.erased, ?_, ?_, ?_, ?_, ?_⟩
    · rcases exists_kind_iff.2 hissued with ⟨k, hk⟩
      exact (kind_eq_ok.2 (hkept.kind.trans hk)).trans (kind_eq_ok.2 hk).symm
    · rcases exists_type_of_hasStmt hissued with ⟨ty, hty⟩
      exact (type_eq_ok.2 (hkept.type.trans hty)).trans (type_eq_ok.2 hty).symm
    · exact parent_eq_ok.2 ⟨hissued', harises'.linked.parent_of_erased s hkept.erased⟩
    · intro b stmts' hlisting hmem
      rcases listing_eq_ok.1 hlisting with ⟨_, rfl⟩
      have hmem := hkept.listed b hmem
      exact ⟨_, listing_eq_ok.2 ⟨(harises.linked.issued_of_listed b s hmem).2, rfl⟩, hmem⟩
    · rintro t u hu rfl
      have hlive := (View.reading?_eq_some.1 ((harises'.indexed.mem_uses t u).1 hu)).1
      rw [hkept.erased] at hlive
      cases hlive

/-- A loop gives way to a constant, whose readers are then turned to another one. In the body of
the loop two statements read each other and one reads the loop; one outside reads the loop as
well. -/
def loopToConst : List Edit :=
  [.createBlock, .createBlock, .createStmt (.whileLoop ⟨1⟩) .void, .push ⟨0⟩ ⟨0⟩,
    .createStmt (.print ⟨2⟩) .void, .push ⟨1⟩ ⟨1⟩, .createStmt (.print ⟨1⟩) .i1, .push ⟨1⟩ ⟨2⟩,
    .createStmt (.loopIndex ⟨0⟩ 0) .i32, .push ⟨1⟩ ⟨3⟩, .createStmt (.print ⟨0⟩) .void,
    .push ⟨0⟩ ⟨4⟩, .createStmt (.const (.int 1)) .i32, .replace ⟨0⟩ ⟨5⟩,
    .createStmt (.const (.int 2)) .i32, .redirect ⟨5⟩ ⟨6⟩]

/-- The readers of the second constant are turned to the tombstone of the loop. -/
def turnedToTombstone : List Edit := [.redirect ⟨6⟩ ⟨0⟩]

theorem tombstones_stay_below_replaced_loop :
    (Edit.applyAll empty loopToConst).result = .ok (ofEdits loopToConst) ∧
      Edit.allTurnToLive empty loopToConst = true ∧
      (ofEdits loopToConst).kind ⟨4⟩ = .ok (.print ⟨6⟩) ∧
      (ofEdits loopToConst).isErased ⟨6⟩ = false ∧
      (ofEdits loopToConst).isErased ⟨3⟩ = true ∧
      (Edit.applyAll (ofEdits loopToConst) turnedToTombstone).result =
        .ok (ofEdits (loopToConst ++ turnedToTombstone)) ∧
      (ofEdits (loopToConst ++ turnedToTombstone)).kind ⟨4⟩ = .ok (.print ⟨0⟩) ∧
      (ofEdits (loopToConst ++ turnedToTombstone)).isErased ⟨3⟩ = true ∧
      (ofEdits (loopToConst ++ turnedToTombstone)).kind ⟨3⟩ = .ok (.loopIndex ⟨5⟩ 0) ∧
      (ofEdits (loopToConst ++ turnedToTombstone)).parent ⟨3⟩ = .ok none ∧
      ∀ t, ∀ u ∈ (ofEdits (loopToConst ++ turnedToTombstone)).usesOf t, u.user ≠ ⟨3⟩ := by
  have hbefore : (Edit.applyAll empty loopToConst).result = .ok (ofEdits loopToConst) := by
    decide +kernel
  have hturn : Edit.allTurnToLive empty loopToConst = true := by decide +kernel
  have hreader : (ofEdits loopToConst).kind ⟨4⟩ = .ok (.print ⟨6⟩) := by decide +kernel
  have hfrozen : (ofEdits loopToConst).kind ⟨3⟩ = .ok (.loopIndex ⟨5⟩ 0) := by decide +kernel
  have hgone : (ofEdits loopToConst).isErased ⟨3⟩ = true := by decide +kernel
  have hafter : (Edit.applyAll (ofEdits loopToConst) turnedToTombstone).result =
      .ok (ofEdits (loopToConst ++ turnedToTombstone)) := by
    decide +kernel
  rcases tombstones_stay with ⟨hunread, hstay⟩
  have hlive := hunread _ _ hbefore hturn ⟨4⟩ _ (by decide +kernel) hreader ⟨6⟩ (by decide)
  rcases hstay _ _ hbefore ⟨3⟩ hgone _ _ hafter with ⟨hgone', hkind, _, hparent, _, huser⟩
  exact ⟨hbefore, hturn, hreader, hlive, hgone, hafter, by decide +kernel, hgone',
    hkind.trans hfrozen, hparent, huser⟩

end Arena

end KernelIR
