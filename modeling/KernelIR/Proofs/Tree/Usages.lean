import KernelIR.Proofs.Arena.Reach
import KernelIR.Tree.Validity

/-!
# The check of usages

In an arena that arises, the check of usages answers as soon as the descent ends and every operand
on the way was created. It finds no entry of the index that should not be there, and misses an entry
exactly for each operand of a tombstone that the descent meets.
-/

namespace KernelIR

namespace View

variable (v : View)

/-- Every operand of the statements `ss`, with the slot that holds it. -/
def readingsOf (ss : List StmtId) : List (StmtId × Use) :=
  ss.flatMap fun s => (v.operands s).zipIdx.map fun (t, slot) => (t, ⟨s, slot⟩)

/-- The mnemonic of a statement. -/
def nameOf (s : StmtId) : String :=
  (v.kind? s).elim "" Kind.name

/-- The erased operands of the statements `ss`, in the order of the descent. -/
def staleIn (ss : List StmtId) : List StaleOperand :=
  ((v.readingsOf ss).filter fun r => v.erased r.1).map fun r =>
    ⟨r.2.user, v.nameOf r.2.user, r.2.slot, r.1⟩

/-- The live operands of the statements `ss` that are in no block and not the root. -/
def detachedIn (root : Node) (ss : List StmtId) : List DetachedOperand :=
  ((v.readingsOf ss).filter fun r =>
    !v.erased r.1 && v.parent? r.1 = none && root ≠ .stmt r.1).map fun r =>
      ⟨r.2.user, r.2.slot, r.1⟩

/-- The operands of the statements `ss` that the use lists miss. -/
def missingIn (ss : List StmtId) : List UseDefect :=
  (v.readingsOf ss).filterMap fun r =>
    if r.2 ∈ v.uses r.1 then none else some (.unrecorded r.2.user r.2.slot r.1)

/-- The entries in the use lists of the statements `ss` that nothing bears out. -/
def unfoundedIn (ss : List StmtId) : List UseDefect :=
  ss.flatMap fun t => ((v.uses t).filter fun u =>
    v.erased u.user || (v.operands u.user)[u.slot]? ≠ some t).map fun u =>
      .unfounded t u (v.operands u.user)[u.slot]?

/-- A defect for every operand of a tombstone among `ss`. -/
def unrecordedIn (ss : List StmtId) : List UseDefect :=
  (ss.filter v.erased).flatMap fun s =>
    (v.operands s).zipIdx.map fun (t, slot) => .unrecorded s slot t

variable {v} {root : Node} {ss : List StmtId}

theorem mem_readingsOf {t : StmtId} {u : Use} :
    (t, u) ∈ v.readingsOf ss ↔ u.user ∈ ss ∧ (v.operands u.user)[u.slot]? = some t := by
  rcases u with ⟨user, slot⟩
  simp only [readingsOf, List.mem_flatMap, List.mem_map, Prod.mk.injEq, Use.mk.injEq, Prod.exists]
  constructor
  · rintro ⟨s, hs, operand, i, hmem, rfl, rfl, rfl⟩
    exact ⟨hs, List.mk_mem_zipIdx_iff_getElem?.1 hmem⟩
  · rintro ⟨hs, hslot⟩
    exact ⟨user, hs, t, slot, List.mk_mem_zipIdx_iff_getElem?.2 hslot, rfl, rfl, rfl⟩

theorem forall_readings {P : StmtId → Use → Prop} :
    (∀ r ∈ v.readingsOf ss, P r.1 r.2) ↔
      ∀ s ∈ ss, ∀ i t, (v.operands s)[i]? = some t → P t ⟨s, i⟩ := by
  constructor
  · intro h s hs i t ht
    exact h (t, ⟨s, i⟩) (mem_readingsOf.2 ⟨hs, ht⟩)
  · rintro h ⟨t, u⟩ hr
    rcases mem_readingsOf.1 hr with ⟨hs, hslot⟩
    exact h u.user hs u.slot t hslot

theorem forall_readingsOf {P : StmtId → Prop} :
    (∀ r ∈ v.readingsOf ss, P r.1) ↔ ∀ s ∈ ss, ∀ t ∈ v.operands s, P t := by
  refine (forall_readings (P := fun t _ => P t)).trans (forall₂_congr fun s _ => ?_)
  constructor
  · intro h t ht
    rcases List.getElem?_of_mem ht with ⟨slot, hslot⟩
    exact h slot t hslot
  · intro h slot t hslot
    exact h t (List.mem_of_getElem? hslot)

/-! ## Finding nothing -/

theorem staleIn_eq_nil :
    v.staleIn ss = [] ↔ ∀ s ∈ ss, ∀ t ∈ v.operands s, v.erased t = false := by
  rw [← forall_readingsOf (P := fun t => v.erased t = false)]
  simp [staleIn, List.filter_eq_nil_iff]

theorem detachedIn_eq_nil :
    v.detachedIn root ss = [] ↔ ∀ s ∈ ss, ∀ t ∈ v.operands s,
      v.erased t = false → v.parent? t = none → root = .stmt t := by
  rw [← forall_readingsOf
    (P := fun t => v.erased t = false → v.parent? t = none → root = .stmt t)]
  simp [detachedIn, List.filter_eq_nil_iff]

theorem missingIn_eq_nil :
    v.missingIn ss = [] ↔
      ∀ s ∈ ss, ∀ i t, (v.operands s)[i]? = some t → ⟨s, i⟩ ∈ v.uses t := by
  rw [← forall_readings (P := fun t u => u ∈ v.uses t)]
  simp [missingIn, List.filterMap_eq_nil_iff]

theorem unfoundedIn_eq_nil :
    v.unfoundedIn ss = [] ↔ ∀ t ∈ ss, ∀ u ∈ v.uses t,
      v.erased u.user = false ∧ (v.operands u.user)[u.slot]? = some t := by
  simp [unfoundedIn, List.flatMap_eq_nil_iff, List.filter_eq_nil_iff]

/-! ## With an exact index -/

/-- The reading of an operand is missing from an exact index exactly if its user is a tombstone. -/
theorem missingIn_of_indexed (h : v.Indexed) (ss : List StmtId) :
    v.missingIn ss = v.unrecordedIn ss := by
  have hcongr : v.missingIn ss = (v.readingsOf ss).filterMap fun r =>
      if v.erased r.2.user then some (.unrecorded r.2.user r.2.slot r.1) else none := by
    refine List.filterMap_congr ?_
    rintro ⟨t, u⟩ hr
    have hrecorded : u ∈ v.uses t ↔ v.erased u.user = false := by
      rw [h.mem_uses, reading?_eq_some]
      exact and_iff_left (mem_readingsOf.1 hr).2
    cases herased : v.erased u.user <;> simp [hrecorded, herased]
  rw [hcongr, readingsOf, unrecordedIn]
  clear hcongr
  induction ss with
  | nil => rfl
  | cons s ss ih =>
      rw [List.flatMap_cons, List.filterMap_append, ih, List.filterMap_map]
      cases hs : v.erased s <;> simp [hs]

/-- An exact index holds nothing that should not be there, whatever the tree looks like. -/
theorem unfoundedIn_of_indexed (h : v.Indexed) (ss : List StmtId) : v.unfoundedIn ss = [] :=
  unfoundedIn_eq_nil.2 fun t _ u hu => reading?_eq_some.1 ((h.mem_uses t u).1 hu)

end View

namespace Arena

variable {a : Arena} {root : Node} {ss : List StmtId} {t : StmtId} {u : Use}

/-! ## The parts of the check -/

theorem operandsOf_eq_ok (hissued : ∀ s ∈ ss, a.view.HasStmt s) :
    a.operandsOf ss = .ok (a.view.readingsOf ss) := by
  refine gather_eq_ok fun s hs => ?_
  rcases exists_kind_iff.2 (hissued s hs) with ⟨k, hk⟩
  rw [kind_eq_ok.2 hk, View.operands_of_kind hk]
  rfl

theorem staleOperand?_eq_ok (hu : a.view.HasStmt u.user) :
    a.staleOperand? t u = .ok
      (if a.view.erased t then some ⟨u.user, a.view.nameOf u.user, u.slot, t⟩ else none) := by
  rcases exists_kind_iff.2 hu with ⟨k, hk⟩
  rw [staleOperand?, isErased_eq, kind_eq_ok.2 hk, View.nameOf, hk]
  cases a.view.erased t <;> rfl

theorem detachedOperand?_eq_ok (ht : a.view.HasStmt t) :
    a.detachedOperand? root t u = .ok
      (if !a.view.erased t && a.view.parent? t = none && root ≠ .stmt t then
        some ⟨u.user, u.slot, t⟩ else none) := by
  rw [detachedOperand?, isErased_eq, parent_eq_ok.2 ⟨ht, rfl⟩]
  cases a.view.erased t with
  | true => rfl
  | false =>
      cases a.view.parent? t with
      | some b => rfl
      | none => by_cases hroot : root = .stmt t <;> simp [hroot]

theorem unfounded?_eq_ok (hu : a.view.HasStmt u.user) :
    a.unfounded? t u = .ok
      (if a.view.erased u.user || (a.view.operands u.user)[u.slot]? ≠ some t then
        some (.unfounded t u (a.view.operands u.user)[u.slot]?) else none) := by
  rcases exists_kind_iff.2 hu with ⟨k, hk⟩
  rw [unfounded?, isErased_eq, kind_eq_ok.2 hk, View.operands_of_kind hk]
  cases a.view.erased u.user with
  | true => rfl
  | false => by_cases hread : k.operands[u.slot]? = some t <;> simp [hread]

/-! ## The check as a whole -/

/-- What the check answers, where it looks at nothing that was not created. -/
theorem usageReport_eq_ok (hmeets : a.view.MeetsFrom root ss)
    (hoperands : ∀ s ∈ ss, ∀ t ∈ a.view.operands s, a.view.HasStmt t)
    (husers : ∀ s ∈ ss, ∀ u ∈ a.view.uses s, a.view.HasStmt u.user) :
    a.usageReport root = .ok ⟨[], a.view.staleIn ss, a.view.detachedIn root ss,
      a.view.missingIn ss ++ a.view.unfoundedIn ss⟩ := by
  have hissued : ∀ s ∈ ss, a.view.HasStmt s := fun s hs => (hmeets.2.enter_of_mem hs).1
  have hstale : (a.view.readingsOf ss).filterMapM (fun r => a.staleOperand? r.1 r.2) =
      .ok (a.view.staleIn ss) :=
    filterMapM_eq_ok _ _ fun r hr => staleOperand?_eq_ok (hissued _ (View.mem_readingsOf.1 hr).1)
  have hdetached : (a.view.readingsOf ss).filterMapM (fun r => a.detachedOperand? root r.1 r.2) =
      .ok (a.view.detachedIn root ss) :=
    filterMapM_eq_ok _ _ fun r hr =>
      detachedOperand?_eq_ok (View.forall_readingsOf.2 hoperands r hr)
  have hunfounded : gather (fun t => (a.usesOf t).filterMapM (a.unfounded? t)) ss =
      .ok (a.view.unfoundedIn ss) :=
    gather_eq_ok fun t ht => filterMapM_eq_ok _ _ fun u hu => unfounded?_eq_ok (husers t ht u hu)
  have hunfold : a.usageReport root = a.collect root >>= fun reachable =>
      a.operandsOf reachable >>= fun readings =>
      readings.filterMapM (fun r => a.staleOperand? r.1 r.2) >>= fun stale =>
      readings.filterMapM (fun r => a.detachedOperand? root r.1 r.2) >>= fun detached =>
      gather (fun t => (a.usesOf t).filterMapM (a.unfounded? t)) reachable >>= fun unfounded =>
      pure ⟨[], stale, detached,
        readings.filterMap (fun r => a.unrecorded? r.1 r.2) ++ unfounded⟩ := by
    simp [usageReport, gather]
  rw [hunfold, collect_eq_ok.2 hmeets, ok_bind, operandsOf_eq_ok hissued, ok_bind, hstale, ok_bind,
    hdetached, ok_bind, hunfounded, ok_bind]
  rfl

/-- What the check answers with an exact index. -/
theorem exists_usageReport (h : a.view.Indexed) (hmeets : a.view.MeetsFrom root ss)
    (hissued : ∀ s ∈ ss, ∀ t ∈ a.view.operands s, a.view.HasStmt t) :
    ∃ stale detached,
      a.usageReport root = .ok ⟨[], stale, detached, a.view.unrecordedIn ss⟩ ∧
      (stale = [] ↔ ∀ s ∈ ss, ∀ t ∈ a.view.operands s, a.view.erased t = false) ∧
      (detached = [] ↔ ∀ s ∈ ss, ∀ t ∈ a.view.operands s,
        a.view.erased t = false → a.view.parent? t = none → root = .stmt t) := by
  have hreport := usageReport_eq_ok hmeets hissued fun s _ u hu => h.hasStmt_user hu
  rw [View.missingIn_of_indexed h, View.unfoundedIn_of_indexed h, List.append_nil] at hreport
  exact ⟨_, _, hreport, View.staleIn_eq_nil, View.detachedIn_eq_nil⟩

/-- The check can be carried out only if the descent ends and every operand was created. -/
theorem of_usageReport (h : a.view.Indexed) {report : Report}
    (hreport : a.usageReport root = .ok report) :
    ∃ ss, a.view.MeetsFrom root ss ∧ ∀ s ∈ ss, ∀ t ∈ a.view.operands s, a.view.HasStmt t := by
  simp only [usageReport, bind_eq_ok, collect_eq_ok] at hreport
  rcases hreport with ⟨ss, hmeets, readings, hreadings, _, _, detached, hdetached, _⟩
  rw [operandsOf_eq_ok fun s hs => (hmeets.2.enter_of_mem hs).1] at hreadings
  cases hreadings
  refine ⟨ss, hmeets, View.forall_readingsOf.1 ?_⟩
  rintro ⟨t, u⟩ hr
  rcases exists_ok_of_filterMapM hdetached _ hr with ⟨y, hy⟩
  -- A tombstone was created; of anything else the check asks for the parent.
  cases hlive : a.view.erased t with
  | true => exact h.hasStmt_of_erased t hlive
  | false =>
      simp only [detachedOperand?, isErased_eq, hlive, Bool.false_eq_true, if_false, bind_eq_ok,
        parent_eq_ok] at hy
      rcases hy with ⟨_, ⟨ht, _⟩, _⟩
      exact ht

/-! ## Arenas that arise -/

/-- In every arena that arises, the list of a statement holds each use whose slot reads it once, and
nothing else. The check of usages, wherever it can be carried out, then misses one entry for every
operand of a tombstone on its way, and complains of no live statement. -/
theorem Arises.uses_exact (h : a.Arises) :
    (∀ t u, (a.usesOf t).count u = if a.view.reading? u = some t then 1 else 0) ∧
      ∀ root ss, a.view.MeetsFrom root ss →
        (∀ s ∈ ss, ∀ t ∈ a.view.operands s, a.view.HasStmt t) →
          ∃ report, a.usageReport root = .ok report ∧ report.uses = a.view.unrecordedIn ss := by
  have hindexed := h.indexed
  refine ⟨?_, ?_⟩
  · intro t u
    have hmem := hindexed.mem_uses t u
    by_cases hu : u ∈ a.view.uses t
    · rw [if_pos (hmem.1 hu)]
      exact List.count_eq_one_of_mem (hindexed.nodup_uses t) hu
    · rw [if_neg fun hread => hu (hmem.2 hread)]
      exact List.count_eq_zero_of_not_mem hu
  · intro root ss hmeets hissued
    rcases exists_usageReport hindexed hmeets hissued with ⟨stale, detached, hreport, _, _⟩
    exact ⟨_, hreport, rfl⟩

/-- A loop whose body reads a statement twice is erased; a reader of a handle not yet issued
stays. -/
def afterErasedLoop : Arena := ofEdits
  [.createBlock, .createStmt .alloca .i32, .push ⟨0⟩ ⟨0⟩,
    .createBlock, .createStmt (.localStore ⟨0⟩ ⟨0⟩) .void, .push ⟨1⟩ ⟨1⟩,
    .createStmt (.whileLoop ⟨1⟩) .void, .erase ⟨2⟩,
    .createStmt (.localStore ⟨0⟩ ⟨9⟩) .void, .push ⟨0⟩ ⟨3⟩]

theorem uses_exact_below_tombstone :
    afterErasedLoop.Arises ∧
      (afterErasedLoop.usesOf ⟨0⟩).count ⟨⟨3⟩, 0⟩ = 1 ∧
      (afterErasedLoop.usesOf ⟨9⟩).count ⟨⟨3⟩, 1⟩ = 1 ∧
      (afterErasedLoop.usesOf ⟨0⟩).count ⟨⟨1⟩, 0⟩ = 0 ∧
      afterErasedLoop.view.MeetsFrom (.stmt ⟨2⟩) [⟨2⟩, ⟨1⟩] ∧
      ∃ report, afterErasedLoop.usageReport (.stmt ⟨2⟩) = .ok report ∧
        report.uses = [.unrecorded ⟨1⟩ 0 ⟨0⟩, .unrecorded ⟨1⟩ 1 ⟨0⟩] := by
  have harises : afterErasedLoop.Arises := arises_ofEdits _
  have hmeets : afterErasedLoop.view.MeetsFrom (.stmt ⟨2⟩) [⟨2⟩, ⟨1⟩] :=
    collect_eq_ok.1 (by decide +kernel)
  have hissued : ∀ s ∈ [⟨2⟩, ⟨1⟩], ∀ t ∈ afterErasedLoop.view.operands s,
      afterErasedLoop.view.HasStmt t := by
    decide +kernel
  have hdefects : afterErasedLoop.view.unrecordedIn [⟨2⟩, ⟨1⟩] =
      [.unrecorded ⟨1⟩ 0 ⟨0⟩, .unrecorded ⟨1⟩ 1 ⟨0⟩] := by
    decide +kernel
  rcases harises.uses_exact with ⟨hcount, hcheck⟩
  refine ⟨harises, ?_, ?_, ?_, hmeets, hdefects ▸ hcheck _ _ hmeets hissued⟩
  · rw [hcount ⟨0⟩ ⟨⟨3⟩, 0⟩, if_pos (by decide +kernel)]
  · rw [hcount ⟨9⟩ ⟨⟨3⟩, 1⟩, if_pos (by decide +kernel)]
  · rw [hcount ⟨0⟩ ⟨⟨1⟩, 0⟩, if_neg (by decide +kernel)]

end Arena

end KernelIR
