import KernelIR.Proofs.Tree.Valid

/-!
# What the checks say of any arena

The checks of a tree are of use only if they can be trusted in arenas that no sequence of edits
makes. All that is asked here is that every handle in a list or a kind was created. The check of
ownership then ends, also where a block contains itself, because it enters no statement twice: what
it goes down on is the number of statements not seen yet. It is silent exactly if the tree is in
order, and the check of usages, after that, lists exactly the operands that are erased or in no
block, and is silent exactly if operands and use lists agree.
-/

namespace KernelIR

open Arena (Seen)

namespace View

/-- Everything listed in a block or held by a statement was created. -/
structure Closed (v : View) : Prop where
  hasStmt_of_listed : ∀ b, ∀ s ∈ v.listed b, v.HasStmt s
  hasBlock_of_child : ∀ s, ∀ b ∈ v.children s, v.HasBlock b

def HasNode (v : View) : Node → Prop
  | .block b => v.HasBlock b
  | .stmt s => v.HasStmt s

instance (v : View) : (root : Node) → Decidable (v.HasNode root)
  | .block b => inferInstanceAs (Decidable (v.HasBlock b))
  | .stmt s => inferInstanceAs (Decidable (v.HasStmt s))

theorem Linked.closed {v : View} (h : v.Linked) : v.Closed :=
  ⟨fun b s hs => (h.issued_of_listed b s hs).1, h.hasBlock_of_child⟩

/-- The descent from `root` ends and meets each of `ss` once, all of them are live and own their
blocks, and every statement names the block that lists it. -/
structure InOrder (v : View) (root : Node) (ss : List StmtId) : Prop where
  meets : v.MeetsFrom root ss
  once : ss.Nodup
  tidy : ∀ s ∈ ss, v.Tidy s
  named : ∀ b, root = .block b → ∀ t ∈ v.listed b, v.parent? t = some b

/-- What the statements `ss` read is live and in some block, unless it is the root, and operands and
use lists say the same. -/
structure UsesAgree (v : View) (root : Node) (ss : List StmtId) : Prop where
  live : ∀ s ∈ ss, ∀ t ∈ v.operands s, v.erased t = false
  attached : ∀ s ∈ ss, ∀ t ∈ v.operands s, v.parent? t ≠ none ∨ root = .stmt t
  recorded : ∀ s ∈ ss, ∀ i t, (v.operands s)[i]? = some t → ⟨s, i⟩ ∈ v.uses t
  founded : ∀ t ∈ ss, ∀ u ∈ v.uses t,
    v.erased u.user = false ∧ (v.operands u.user)[u.slot]? = some t

end View

/-! ## Checks in a row that end -/

section Gather

variable {σ α β : Type} {f : α → StateT σ (Except Fault) (List β)} {st : σ}

theorem run_lift_bind {γ : Type} {x : Except Fault α} {y : α} (hx : x = .ok y)
    (g : α → StateT σ (Except Fault) γ) : (liftM x >>= g).run st = (g y).run st := by
  subst hx
  rfl

theorem gatherReports_eq_cons (x : α) (xs : List α) :
    gatherReports f (x :: xs) =
      f x >>= fun here => gatherReports f xs >>= fun rest => pure (here ++ rest) := by
  simp [gatherReports, List.mapM_cons]

/-- Checks that end and pass on what they need make a row that ends. -/
theorem exists_gatherReports {P : σ → Prop} {xs : List α}
    (h : ∀ x ∈ xs, ∀ st, P st → ∃ ys st', (f x).run st = .ok (ys, st') ∧ P st') (hst : P st) :
    ∃ ys st', (gatherReports f xs).run st = .ok (ys, st') ∧ P st' := by
  induction xs generalizing st with
  | nil => exact ⟨[], st, rfl, hst⟩
  | cons x xs ih =>
      rcases h x List.mem_cons_self st hst with ⟨here, st₁, hx, hst₁⟩
      rcases ih (fun y hy => h y (List.mem_cons_of_mem x hy)) hst₁ with ⟨rest, st', hxs, hst'⟩
      refine ⟨here ++ rest, st', ?_, hst'⟩
      rw [gatherReports_eq_cons, run_bind_eq_ok]
      exact ⟨here, st₁, hx, run_bind_eq_ok.2 ⟨rest, st', hxs, rfl⟩⟩

end Gather

namespace Arena

variable {a : Arena} {root : Node} {s : StmtId} {ss : List StmtId} {seen seen' : Seen} {depth : Nat}

/-! ## The check of ownership ends -/

/-- Everything marked in `seen` is marked in `seen'`. -/
def Extends (seen seen' : Seen) : Prop :=
  ∀ i, seen.get i = true → seen'.get i = true

theorem Extends.refl (seen : Seen) : Extends seen seen := fun _ hi => hi

theorem Extends.trans {seen₁ : Seen} (h : Extends seen seen₁) (h' : Extends seen₁ seen') :
    Extends seen seen' := fun i hi => h' i (h i hi)

theorem Extends.set (seen : Seen) (s : StmtId) : Extends seen (seen.set s.index true) := by
  intro i hi
  rw [Column.get_set]
  split
  · rfl
  · exact hi

/-- The statements that are not marked yet. -/
def unseen (a : Arena) (seen : Seen) : Finset Nat :=
  (Finset.range a.stmts.size).filter fun i => seen.get i = false

theorem card_unseen_le (h : Extends seen seen') : (a.unseen seen').card ≤ (a.unseen seen).card := by
  refine Finset.card_le_card fun i hi => ?_
  rcases Finset.mem_filter.1 hi with ⟨hissued, hunseen⟩
  refine Finset.mem_filter.2 ⟨hissued, ?_⟩
  rw [← Bool.not_eq_true]
  intro hseen
  rw [h i hseen] at hunseen
  cases hunseen

/-- Marking a statement for the first time leaves fewer. -/
theorem card_unseen_set_lt (hs : a.view.HasStmt s) (hunseen : seen.get s.index = false) :
    (a.unseen (seen.set s.index true)).card < (a.unseen seen).card := by
  have hmem : s.index ∈ a.unseen seen := Finset.mem_filter.2 ⟨Finset.mem_range.2 hs, hunseen⟩
  refine Finset.card_lt_card (Finset.ssubset_iff_subset_ne.2 ⟨?_, ?_⟩)
  · intro i hi
    rcases Finset.mem_filter.1 hi with ⟨hissued, hget⟩
    rw [Column.get_set] at hget
    split at hget
    · cases hget
    · exact Finset.mem_filter.2 ⟨hissued, hget⟩
  · intro heq
    rw [← heq] at hmem
    simpa using (Finset.mem_filter.1 hmem).2

theorem exists_listingDefects {check : StmtId → StateT Seen (Except Fault) (List OwnershipDefect)}
    {P : Seen → Prop} {b : BlockId} (hb : a.view.HasBlock b)
    (hlisted : ∀ t ∈ a.view.listed b, a.view.HasStmt t)
    (hcheck : ∀ t ∈ a.view.listed b, ∀ seen, P seen →
      ∃ ds seen', (check t).run seen = .ok (ds, seen') ∧ P seen') (hseen : P seen) :
    ∃ ds seen', (a.listingDefects check b).run seen = .ok (ds, seen') ∧ P seen' := by
  have hmember : ∀ t ∈ a.view.listed b, ∀ seen, P seen →
      ∃ ds seen', (a.memberDefects check b t).run seen = .ok (ds, seen') ∧ P seen' := by
    intro t ht seen hseen
    rcases hcheck t ht seen hseen with ⟨rest, seen', hrest, hseen'⟩
    rw [memberDefects, run_lift_bind (parent_eq_ok.2 ⟨hlisted t ht, rfl⟩)]
    exact ⟨_, seen', run_bind_eq_ok.2 ⟨rest, seen', hrest, rfl⟩, hseen'⟩
  rcases exists_gatherReports hmember hseen with ⟨ds, seen', hrun, hseen'⟩
  refine ⟨ds, seen', ?_, hseen'⟩
  have hunfold : a.listingDefects check b =
      (liftM (a.listing b) : StateT Seen (Except Fault) _) >>=
        gatherReports (a.memberDefects check b) := rfl
  rw [hunfold, listing_eq_ok.2 ⟨hb, rfl⟩]
  exact hrun

/-- Through more levels than there are unmarked statements the check of one statement ends. -/
theorem exists_ownershipWithin (hclosed : a.view.Closed) (hs : a.view.HasStmt s)
    (hdepth : (a.unseen seen).card < depth) :
    ∃ ds seen', (a.ownershipWithin depth s).run seen = .ok (ds, seen') ∧ Extends seen seen' := by
  induction depth generalizing s seen with
  | zero => omega
  | succ depth ih =>
      cases hunseen : seen.get s.index with
      | true => exact ⟨_, seen, ownershipWithin_of_seen hunseen, Extends.refl seen⟩
      | false =>
          -- What is below `s` is checked with `s` marked, so there is one fewer to go.
          have hfewer := card_unseen_set_lt hs hunseen
          have hcheck : ∀ b, ∀ t ∈ a.view.listed b, ∀ seen₁,
              Extends (seen.set s.index true) seen₁ → ∃ ds seen₂,
                (a.ownershipWithin depth t).run seen₁ = .ok (ds, seen₂) ∧
                  Extends (seen.set s.index true) seen₂ := by
            intro b t ht seen₁ hseen₁
            have hle := card_unseen_le (a := a) hseen₁
            have hlevels : (a.unseen seen₁).card < depth := by omega
            rcases ih (hclosed.hasStmt_of_listed b t ht) hlevels with ⟨ds, seen₂, hrun, hseen₂⟩
            exact ⟨ds, seen₂, hrun, hseen₁.trans hseen₂⟩
          rcases exists_kind_iff.2 hs with ⟨k, hk⟩
          have hchild : ∀ b ∈ k.children, ∀ seen₁, Extends (seen.set s.index true) seen₁ →
              ∃ ds seen₂,
                (a.childDefects (a.ownershipWithin depth) s b).run seen₁ = .ok (ds, seen₂) ∧
                  Extends (seen.set s.index true) seen₂ := by
            intro b hb seen₁ hseen₁
            rw [← View.children_of_kind hk] at hb
            have hissued := hclosed.hasBlock_of_child s b hb
            have hlisted := hclosed.hasStmt_of_listed b
            rcases exists_listingDefects hissued hlisted (hcheck b) hseen₁ with
              ⟨rest, seen₂, hrest, hseen₂⟩
            rw [childDefects, run_lift_bind (owner_eq_ok.2 ⟨hissued, rfl⟩)]
            exact ⟨_, seen₂, run_bind_eq_ok.2 ⟨rest, seen₂, hrest, rfl⟩, hseen₂⟩
          rcases exists_gatherReports hchild (Extends.refl _) with ⟨below, seen', hbelow, hseen'⟩
          rw [ownershipWithin_of_unseen hunseen, run_lift_bind (kind_eq_ok.2 hk)]
          exact ⟨_, seen', run_bind_eq_ok.2 ⟨below, seen', hbelow, rfl⟩,
            (Extends.set seen s).trans hseen'⟩

/-- The check of ownership answers, whatever the tree looks like. -/
theorem exists_ownershipDefects (hclosed : a.view.Closed) (hroot : a.view.HasNode root) :
    ∃ ds, a.ownershipDefects root = .ok ds := by
  -- The levels that the check starts with suffice, whatever is marked already.
  have hall : ∀ seen, (a.unseen seen).card < a.stmts.size + 1 := by
    intro seen
    have hle := Finset.card_filter_le (Finset.range a.stmts.size) fun i => seen.get i = false
    rw [Finset.card_range] at hle
    exact Nat.lt_succ_of_le hle
  have hrun' : ∀ {x : StateT Seen (Except Fault) (List OwnershipDefect)} {ds seen'},
      x.run Column.empty = .ok (ds, seen') → x.run' Column.empty = .ok ds := by
    intro x ds seen' h
    show Prod.fst <$> x.run Column.empty = _
    rw [h]
    rfl
  cases root with
  | stmt s =>
      rcases exists_ownershipWithin hclosed hroot (hall Column.empty) with ⟨ds, _, h, _⟩
      exact ⟨ds, hrun' h⟩
  | block b =>
      have hcheck : ∀ t ∈ a.view.listed b, ∀ seen, True → ∃ ds seen',
          (a.ownershipWithin (a.stmts.size + 1) t).run seen = .ok (ds, seen') ∧ True := by
        intro t ht seen _
        rcases exists_ownershipWithin hclosed (hclosed.hasStmt_of_listed b t ht) (hall seen) with
          ⟨ds, seen', h, _⟩
        exact ⟨ds, seen', h, trivial⟩
      rcases exists_listingDefects hroot (hclosed.hasStmt_of_listed b) hcheck trivial with
        ⟨ds, _, h, _⟩
      exact ⟨ds, hrun' h⟩

/-! ## The check of usages finds nothing -/

end Arena

namespace View

variable {v : View} {root : Node} {ss : List StmtId}

/-- The check of usages reports nothing exactly if operands and use lists agree. -/
theorem nothing_found_iff : (⟨[], v.staleIn ss, v.detachedIn root ss,
      v.missingIn ss ++ v.unfoundedIn ss⟩ : Report).isOk = true ↔ v.UsesAgree root ss := by
  simp only [Report.isOk, Bool.and_eq_true, List.isEmpty_iff, List.append_eq_nil_iff,
    staleIn_eq_nil, detachedIn_eq_nil, missingIn_eq_nil, unfoundedIn_eq_nil, true_and]
  constructor
  · rintro ⟨⟨hlive, hplace⟩, hrecorded, hfounded⟩
    refine ⟨hlive, ?_, hrecorded, hfounded⟩
    -- The report names a detached operand only where it is live, which all of them are here.
    intro s hs t ht
    by_cases hp : v.parent? t = none
    · exact .inr (hplace s hs t ht (hlive s hs t ht) hp)
    · exact .inl hp
  · intro h
    refine ⟨⟨h.live, ?_⟩, h.recorded, h.founded⟩
    intro s hs t ht _ hp
    exact (h.attached s hs t ht).resolve_left fun hne => hne hp

end View

/-! ## Both checks -/

namespace Arena

variable {a : Arena} {root : Node} {ss : List StmtId}

theorem ownershipDefects_eq_nil_iff :
    a.ownershipDefects root = .ok [] ↔ ∃ ss, a.view.InOrder root ss := by
  rw [ownershipDefects_eq_nil]
  constructor
  · rintro ⟨ss, hmeets, hnodup, htidy, hnamed⟩
    exact ⟨ss, hmeets, hnodup, htidy, hnamed⟩
  · rintro ⟨ss, h⟩
    exact ⟨ss, h.meets, h.once, h.tidy, h.named⟩

/-- After a silent check of ownership both checks together say what the check of usages says. -/
theorem passes_iff_of_ownershipDefects {report : Report}
    (hownership : a.ownershipDefects root = .ok []) (hreport : a.usageReport root = .ok report)
    (hnone : report.ownership = []) : a.Passes root ↔ report.isOk = true := by
  have hvalidate : a.validate root = .ok report := by
    simp only [validate, hownership, hreport, ok_bind, ← hnone]
    rfl
  constructor
  · rintro ⟨report', hvalidate', hok⟩
    rw [hvalidate] at hvalidate'
    cases hvalidate'
    exact hok
  · exact fun hok => ⟨report, hvalidate, hok⟩

/-- Both checks, in any arena whose lists and kinds name only what was created. The check of
ownership answers, and is silent exactly if the tree is in order; the tree then has finitely many
statements, and the check of usages lists what is wrong with their operands and use lists. -/
theorem checks_exact (a : Arena) (hclosed : a.view.Closed) (root : Node)
    (hroot : a.view.HasNode root) :
    (∃ defects, a.ownershipDefects root = .ok defects) ∧
      (a.ownershipDefects root = .ok [] ↔ ∃ ss, a.view.InOrder root ss) ∧
      (a.ownershipDefects root = .ok [] → ∃ ss, a.collect root = .ok ss ∧ ss.Nodup ∧
        ((∀ s ∈ ss, ∀ t ∈ a.view.operands s, a.view.HasStmt t) →
          (∀ s ∈ ss, ∀ u ∈ a.view.uses s, a.view.HasStmt u.user) →
            ∃ report, a.usageReport root = .ok report ∧
              report.stale = a.view.staleIn ss ∧ report.detached = a.view.detachedIn root ss ∧
              (report.isOk = true ↔ a.view.UsesAgree root ss) ∧
              (a.Passes root ↔ a.view.UsesAgree root ss))) := by
  refine ⟨exists_ownershipDefects hclosed hroot, ownershipDefects_eq_nil_iff, ?_⟩
  intro hownership
  rcases ownershipDefects_eq_nil_iff.1 hownership with ⟨ss, horder⟩
  refine ⟨ss, collect_eq_ok.2 horder.meets, horder.once, ?_⟩
  intro hoperands husers
  have hreport := usageReport_eq_ok horder.meets hoperands husers
  refine ⟨_, hreport, rfl, rfl, View.nothing_found_iff, ?_⟩
  exact (passes_iff_of_ownershipDefects hownership hreport rfl).trans View.nothing_found_iff

/-- A block that is inside itself, and beside it one that stores a detached statement. -/
def insideItself : Arena := ofEdits
  [.createBlock, .createStmt .alloca .i32, .push ⟨0⟩ ⟨0⟩,
    .createBlock, .createStmt (.whileLoop ⟨1⟩) .void, .push ⟨1⟩ ⟨1⟩,
    .createStmt .alloca .i32, .createStmt (.localStore ⟨0⟩ ⟨2⟩) .void, .push ⟨0⟩ ⟨3⟩]

/-- The same with a use list lost, which no edit does. -/
def lostUses : Arena := insideItself.setUses ⟨0⟩ []

theorem checks_exact_inside_itself :
    lostUses.view.Closed ∧
      lostUses.ownershipDefects (.block ⟨1⟩) = .ok [.repeated ⟨1⟩] ∧
      (¬ ∃ ss, lostUses.view.InOrder (.block ⟨1⟩) ss) ∧
      lostUses.view.InOrder (.block ⟨0⟩) [⟨0⟩, ⟨3⟩] ∧
      (∃ report, lostUses.usageReport (.block ⟨0⟩) = .ok report ∧
        report.detached = [⟨⟨3⟩, 1, ⟨2⟩⟩]) ∧
      ¬ lostUses.Passes (.block ⟨0⟩) := by
  -- Losing a use list changes no block and no kind, so what they name is still there.
  have hclosed : lostUses.view.Closed := by
    have hbefore : insideItself.view.Closed := (arises_ofEdits _).linked.closed
    rw [lostUses, view_setUses]
    exact ⟨hbefore.hasStmt_of_listed, hbefore.hasBlock_of_child⟩
  have hinner : lostUses.ownershipDefects (.block ⟨1⟩) = .ok [.repeated ⟨1⟩] := by decide +kernel
  have hcollect : lostUses.collect (.block ⟨0⟩) = .ok [⟨0⟩, ⟨3⟩] := by decide +kernel
  rcases checks_exact lostUses hclosed (.block ⟨1⟩) (by decide +kernel) with ⟨_, hinOrder, _⟩
  rcases checks_exact lostUses hclosed (.block ⟨0⟩) (by decide +kernel) with
    ⟨_, houter, husages⟩
  have hsilent : lostUses.ownershipDefects (.block ⟨0⟩) = .ok [] := by decide +kernel
  rcases husages hsilent with ⟨ss, hss, _, hreport⟩
  rw [hcollect] at hss
  cases hss
  rcases houter.1 hsilent with ⟨ss, horder⟩
  have hsame := horder.meets.2.unique (collect_eq_ok.1 hcollect).2
  subst hsame
  rcases hreport (by decide +kernel) (by decide +kernel) with
    ⟨report, hok, _, hdetached, _, hpasses⟩
  refine ⟨hclosed, hinner, ?_, horder, ⟨report, hok, ?_⟩, ?_⟩
  · intro h
    rw [hinOrder.2 h] at hinner
    cases hinner
  · rw [hdetached]
    decide +kernel
  · intro h
    have hmissing := (hpasses.1 h).recorded ⟨3⟩ (by decide) 0 ⟨0⟩ (by decide +kernel)
    revert hmissing
    decide +kernel

end Arena

end KernelIR
