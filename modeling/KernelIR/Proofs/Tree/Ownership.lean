import KernelIR.Proofs.Arena.Nesting
import KernelIR.Tree.Validity
import Mathlib.Data.List.Perm.Subperm

/-!
# The check of ownership

The check marks the statements that it meets and complains of one that it meets again. It reports
nothing exactly if the descent ends, meets every statement once, and finds each of them live, owning
its blocks and named by what they list.
-/

namespace KernelIR

open Arena (Seen)

/-! ## Checks in a row -/

section Gather

variable {σ α β : Type} {f : α → StateT σ (Except Fault) (List β)} {st st' : σ}

/-- The checks of the places of a list in a row, with what they report put together. -/
def gatherReports (f : α → StateT σ (Except Fault) (List β)) (xs : List α) :
    StateT σ (Except Fault) (List β) :=
  return (← xs.mapM f).flatten

theorem run_bind_eq_ok {γ : Type} {x : StateT σ (Except Fault) α}
    {g : α → StateT σ (Except Fault) γ} {r : γ × σ} : (x >>= g).run st = .ok r ↔
      ∃ y st₁, x.run st = .ok (y, st₁) ∧ (g y).run st₁ = .ok r := by
  rw [StateT.run_bind, bind_eq_ok]
  exact Prod.exists

theorem run_pure_eq_ok {y z : α} : (pure y : StateT σ (Except Fault) α).run st = .ok (z, st') ↔
    y = z ∧ st = st' := by
  rw [StateT.run_pure, pure_eq_ok, Prod.mk.injEq]

theorem run_lift_eq_ok {x : Except Fault α} {y : α} :
    (liftM x : StateT σ (Except Fault) α).run st = .ok (y, st') ↔ x = .ok y ∧ st = st' := by
  show (x >>= fun y => pure (y, st)) = _ ↔ _
  cases x with
  | error fault => simp [bind, Except.bind]
  | ok z => simp [bind, Except.bind, pure, Except.pure]

theorem gatherReports_nil : (gatherReports f []).run st = .ok ([], st') ↔ st = st' := by
  have hnil : gatherReports f [] = pure [] := rfl
  rw [hnil, run_pure_eq_ok]
  exact and_iff_right rfl

/-- Nothing is reported in a row exactly if nothing is reported at each place. -/
theorem gatherReports_cons {x : α} {xs : List α} :
    (gatherReports f (x :: xs)).run st = .ok ([], st') ↔
      ∃ st₁, (f x).run st = .ok ([], st₁) ∧ (gatherReports f xs).run st₁ = .ok ([], st') := by
  simp only [gatherReports, List.mapM_cons, bind_assoc, pure_bind, run_bind_eq_ok, run_pure_eq_ok,
    List.flatten_cons, List.append_eq_nil_iff]
  constructor
  · rintro ⟨here, st₁, hx, rest, st₂, hxs, ⟨rfl, hrest⟩, rfl⟩
    exact ⟨st₁, hx, rest, st₂, hxs, hrest, rfl⟩
  · rintro ⟨st₁, hx, rest, st₂, hxs, hrest, rfl⟩
    exact ⟨[], st₁, hx, rest, st₂, hxs, ⟨rfl, hrest⟩, rfl⟩

theorem gatherReports_append {xs ys : List α} :
    (gatherReports f (xs ++ ys)).run st = .ok ([], st') ↔
      ∃ st₁, (gatherReports f xs).run st = .ok ([], st₁) ∧
        (gatherReports f ys).run st₁ = .ok ([], st') := by
  induction xs generalizing st with
  | nil => simp [gatherReports_nil]
  | cons x xs ih =>
      simp only [List.cons_append, gatherReports_cons, ih]
      constructor
      · rintro ⟨st₁, hx, st₂, hxs, hys⟩
        exact ⟨st₂, ⟨st₁, hx, hxs⟩, hys⟩
      · rintro ⟨st₂, ⟨st₁, hx, hxs⟩, hys⟩
        exact ⟨st₁, hx, st₂, hxs, hys⟩

/-- Lists in a row are the list of all their places. -/
theorem gatherReports_flatMap {γ : Type} {parts : γ → List α} {ys : List γ} :
    (gatherReports (fun y => gatherReports f (parts y)) ys).run st = .ok ([], st') ↔
      (gatherReports f (ys.flatMap parts)).run st = .ok ([], st') := by
  induction ys generalizing st with
  | nil => simp [gatherReports_nil]
  | cons y ys ih => simp only [gatherReports_cons, List.flatMap_cons, gatherReports_append, ih]

/-- Checks that ask for something more, the same at each place. -/
theorem gatherReports_iff_and {g : α → StateT σ (Except Fault) (List β)} {good : α → Prop}
    (h : ∀ x st st', (g x).run st = .ok ([], st') ↔ good x ∧ (f x).run st = .ok ([], st'))
    (xs : List α) :
    (gatherReports g xs).run st = .ok ([], st') ↔
      (∀ x ∈ xs, good x) ∧ (gatherReports f xs).run st = .ok ([], st') := by
  induction xs generalizing st with
  | nil => simp [gatherReports_nil]
  | cons x xs ih =>
      simp only [gatherReports_cons, h, ih, List.forall_mem_cons]
      constructor
      · rintro ⟨st₁, ⟨hx, hcheck⟩, hxs, hrest⟩
        exact ⟨⟨hx, hxs⟩, st₁, hcheck, hrest⟩
      · rintro ⟨⟨hx, hxs⟩, st₁, hcheck, hrest⟩
        exact ⟨st₁, ⟨hx, hcheck⟩, hxs, hrest⟩

/-- A check of something else first, which reports at most one defect. -/
theorem run_report_eq_nil {d : β} {good : Prop} [Decidable good]
    {x : StateT σ (Except Fault) (List β)} :
    (x >>= fun rest => pure ((if good then [] else [d]) ++ rest)).run st = .ok ([], st') ↔
      good ∧ x.run st = .ok ([], st') := by
  simp only [run_bind_eq_ok, run_pure_eq_ok, List.append_eq_nil_iff]
  constructor
  · rintro ⟨rest, st₁, hx, ⟨hgood, rfl⟩, rfl⟩
    by_cases h : good
    · exact ⟨h, hx⟩
    · rw [if_neg h] at hgood
      cases hgood
  · rintro ⟨h, hx⟩
    exact ⟨[], st', hx, ⟨if_pos h, rfl⟩, rfl⟩

end Gather

/-! ## What is found in order -/

namespace View

/-- `s` is live and owns its blocks, and what they list names them. -/
structure Tidy (v : View) (s : StmtId) : Prop where
  live : v.erased s = false
  owns : ∀ b ∈ v.children s, v.owner? b = some s
  named : ∀ b ∈ v.children s, ∀ t ∈ v.listed b, v.parent? t = some b

/-- The statements `ss` are marked, and no others. -/
def Marks (seen : Seen) (ss : List StmtId) (seen' : Seen) : Prop :=
  ∀ t : StmtId, seen'.get t.index = (seen.get t.index || decide (t ∈ ss))

/-- The descent from `xs` ends, meets only unmarked and tidy statements, each of them once, and
marks them. -/
structure Cleared (v : View) (xs ss : List StmtId) (seen seen' : Seen) : Prop where
  meets : v.Meets xs ss
  nodup : ss.Nodup
  unseen : ∀ t ∈ ss, seen.get t.index = false
  tidy : ∀ t ∈ ss, v.Tidy t
  marks : Marks seen ss seen'

variable {v : View} {xs ys ss ts : List StmtId} {seen seen₁ seen' : Seen} {s : StmtId}

theorem Marks.trans (h : Marks seen ss seen₁) (h' : Marks seen₁ ts seen') :
    Marks seen (ss ++ ts) seen' := by
  intro t
  rw [h' t, h t]
  by_cases hs : t ∈ ss <;> by_cases ht : t ∈ ts <;> simp [hs, ht]

theorem Marks.set (h : Marks (seen.set s.index true) ss seen') : Marks seen (s :: ss) seen' := by
  intro t
  rw [h t, Column.get_set]
  by_cases hts : t = s
  · simp [hts]
  · have hidx : s.index ≠ t.index := fun hidx => hts (Arena.stmtIndex_eq_iff.1 hidx)
    simp [hts, hidx]

theorem Cleared.nil (v : View) (seen : Seen) : v.Cleared [] [] seen seen :=
  ⟨.nil, List.nodup_nil, by simp, by simp, fun t => by simp⟩

theorem Cleared.append (h : v.Cleared xs ss seen seen₁) (h' : v.Cleared ys ts seen₁ seen') :
    v.Cleared (xs ++ ys) (ss ++ ts) seen seen' := by
  -- What the first descent met is marked when the second starts, so that one does not meet it.
  have hmarked : ∀ t ∈ ts, seen.get t.index = false ∧ t ∉ ss := by
    intro t ht
    have hunseen := h'.unseen t ht
    rw [h.marks t] at hunseen
    simpa using hunseen
  refine ⟨Visits.append h.meets h'.meets, ?_, ?_, ?_, h.marks.trans h'.marks⟩
  · refine List.Nodup.append h.nodup h'.nodup ?_
    intro t hs ht
    exact (hmarked t ht).2 hs
  · intro t ht
    rcases List.mem_append.1 ht with ht | ht
    · exact h.unseen t ht
    · exact (hmarked t ht).1
  · intro t ht
    rcases List.mem_append.1 ht with ht | ht
    · exact h.tidy t ht
    · exact h'.tidy t ht

theorem Cleared.cons (hs : v.Resolves s) (htidy : v.Tidy s) (hunseen : seen.get s.index = false)
    (h : v.Cleared (v.below s) ss (seen.set s.index true) seen') :
    v.Cleared [s] (s :: ss) seen seen' := by
  have hrest : ∀ t ∈ ss, seen.get t.index = false ∧ t ≠ s := by
    intro t ht
    have hmark := h.unseen t ht
    rw [Column.get_set] at hmark
    have hts : t ≠ s := by
      rintro rfl
      simp at hmark
    have hidx : s.index ≠ t.index := fun hidx => hts (Arena.stmtIndex_eq_iff.1 hidx)
    exact ⟨by simpa [hidx] using hmark, hts⟩
  refine ⟨Visits.singleton_iff.2 ⟨hs, ss, h.meets, rfl⟩, ?_, ?_, ?_, h.marks.set⟩
  · exact List.nodup_cons.2 ⟨fun hmem => (hrest s hmem).2 rfl, h.nodup⟩
  · exact List.forall_mem_cons.2 ⟨hunseen, fun t ht => (hrest t ht).1⟩
  · exact List.forall_mem_cons.2 ⟨htidy, h.tidy⟩

end View

namespace Arena

variable {a : Arena} {b : BlockId} {s : StmtId} {ss xs : List StmtId} {seen seen' : Seen}
  {check : StmtId → StateT Seen (Except Fault) (List OwnershipDefect)}

/-! ## Reporting nothing -/

/-- The check of one statement that `b` lists. -/
def memberDefects (a : Arena) (check : StmtId → StateT Seen (Except Fault) (List OwnershipDefect))
    (b : BlockId) (t : StmtId) : StateT Seen (Except Fault) (List OwnershipDefect) :=
  (liftM (a.parent t) : StateT Seen (Except Fault) _) >>= fun parent =>
    check t >>= fun rest =>
      pure ((if parent = some b then [] else [.strayParent t b parent]) ++ rest)

/-- The check of one block that `s` holds. -/
def childDefects (a : Arena) (check : StmtId → StateT Seen (Except Fault) (List OwnershipDefect))
    (s : StmtId) (b : BlockId) : StateT Seen (Except Fault) (List OwnershipDefect) :=
  (liftM (a.owner b) : StateT Seen (Except Fault) _) >>= fun owner =>
    a.listingDefects check b >>= fun rest =>
      pure ((if owner = some s then [] else [.strayOwner b s owner]) ++ rest)

theorem memberDefects_eq_nil {t : StmtId} :
    (a.memberDefects check b t).run seen = .ok ([], seen') ↔
      a.view.parent? t = some b ∧ (check t).run seen = .ok ([], seen') := by
  simp only [memberDefects, run_bind_eq_ok (x := liftM (a.parent t)), run_lift_eq_ok, parent_eq_ok]
  constructor
  · rintro ⟨parent, _, ⟨⟨_, rfl⟩, rfl⟩, h⟩
    exact run_report_eq_nil.1 h
  · rintro ⟨hparent, h⟩
    have ht : a.view.HasStmt t := by
      by_contra hn
      rw [parent_of_not_hasStmt hn] at hparent
      cases hparent
    exact ⟨_, seen, ⟨⟨ht, hparent⟩, rfl⟩, run_report_eq_nil.2 ⟨rfl, h⟩⟩

theorem listingDefects_eq_nil :
    (a.listingDefects check b).run seen = .ok ([], seen') ↔
      (a.view.HasBlock b ∧ ∀ t ∈ a.view.listed b, a.view.parent? t = some b) ∧
        (gatherReports check (a.view.listed b)).run seen = .ok ([], seen') := by
  have hunfold : a.listingDefects check b =
      (liftM (a.listing b) : StateT Seen (Except Fault) _) >>=
        gatherReports (a.memberDefects check b) := rfl
  rw [hunfold, run_bind_eq_ok]
  simp only [run_lift_eq_ok, listing_eq_ok,
    gatherReports_iff_and fun _ _ _ => memberDefects_eq_nil]
  constructor
  · rintro ⟨_, _, ⟨⟨hb, rfl⟩, rfl⟩, hnamed, h⟩
    exact ⟨⟨hb, hnamed⟩, h⟩
  · rintro ⟨⟨hb, hnamed⟩, h⟩
    exact ⟨_, _, ⟨⟨hb, rfl⟩, rfl⟩, hnamed, h⟩

theorem childDefects_eq_nil :
    (a.childDefects check s b).run seen = .ok ([], seen') ↔
      (a.view.owner? b = some s ∧ a.view.HasBlock b ∧
        ∀ t ∈ a.view.listed b, a.view.parent? t = some b) ∧
        (gatherReports check (a.view.listed b)).run seen = .ok ([], seen') := by
  simp only [childDefects, run_bind_eq_ok (x := liftM (a.owner b)), run_lift_eq_ok, owner_eq_ok]
  constructor
  · rintro ⟨owner, _, ⟨⟨_, rfl⟩, rfl⟩, h⟩
    rcases run_report_eq_nil.1 h with ⟨howner, hlisting⟩
    rcases listingDefects_eq_nil.1 hlisting with ⟨hnamed, hrest⟩
    exact ⟨⟨howner, hnamed⟩, hrest⟩
  · rintro ⟨⟨howner, hnamed⟩, hrest⟩
    have hlisting := listingDefects_eq_nil.2 ⟨hnamed, hrest⟩
    exact ⟨_, seen, ⟨⟨hnamed.1, howner⟩, rfl⟩, run_report_eq_nil.2 ⟨rfl, hlisting⟩⟩

/-- A statement that is met again is reported, and nothing else is done. -/
theorem ownershipWithin_of_seen {depth : Nat} (hseen : seen.get s.index = true) :
    (a.ownershipWithin (depth + 1) s).run seen = .ok ([.repeated s], seen) := by
  rw [ownershipWithin]
  show (if seen.get s.index then _ else _ : StateT Seen (Except Fault) _) seen = _
  rw [hseen]
  rfl

/-- A statement that is met for the first time is marked before its blocks are checked. -/
theorem ownershipWithin_of_unseen {depth : Nat} (hseen : seen.get s.index = false) :
    (a.ownershipWithin (depth + 1) s).run seen =
      ((liftM (a.kind s) : StateT Seen (Except Fault) _) >>= fun k =>
        gatherReports (a.childDefects (a.ownershipWithin depth) s) k.children >>= fun below =>
          pure ((if a.view.erased s = false then [] else [.erased s]) ++ below)).run
        (seen.set s.index true) := by
  have htombstone : (if a.isErased s then [OwnershipDefect.erased s] else []) =
      if a.view.erased s = false then [] else [.erased s] := by
    rw [isErased_eq]
    cases a.view.erased s <;> rfl
  rw [ownershipWithin]
  show (if seen.get s.index then _ else _ : StateT Seen (Except Fault) _) seen = _
  rw [hseen, htombstone]
  simp only [gatherReports, bind_assoc, pure_bind]
  rfl

/-- The check of `s` reports nothing exactly if `s` is unmarked and in order, and the checks of what
is below it report nothing. -/
theorem ownershipWithin_eq_nil {depth : Nat} :
    (a.ownershipWithin (depth + 1) s).run seen = .ok ([], seen') ↔
      (a.view.Resolves s ∧ a.view.Tidy s ∧ seen.get s.index = false) ∧
        (gatherReports (a.ownershipWithin depth) (a.view.below s)).run (seen.set s.index true) =
          .ok ([], seen') := by
  cases hseen : seen.get s.index with
  | true => simp [ownershipWithin_of_seen hseen]
  | false =>
      rw [ownershipWithin_of_unseen hseen, run_bind_eq_ok]
      simp only [run_lift_eq_ok, kind_eq_ok, run_report_eq_nil,
        gatherReports_iff_and fun _ _ _ => childDefects_eq_nil, gatherReports_flatMap,
        View.Resolves, ← exists_kind_iff]
      constructor
      · rintro ⟨k, _, ⟨hk, rfl⟩, hlive, hchildren, hrest⟩
        rw [← View.children_of_kind hk] at hchildren hrest
        have hresolves : (∃ k, a.view.kind? s = some k) ∧
            ∀ c ∈ a.view.children s, a.view.HasBlock c :=
          ⟨⟨k, hk⟩, fun c hc => (hchildren c hc).2.1⟩
        have htidy : a.view.Tidy s :=
          ⟨hlive, fun c hc => (hchildren c hc).1, fun c hc => (hchildren c hc).2.2⟩
        exact ⟨⟨hresolves, htidy, trivial⟩, hrest⟩
      · rintro ⟨⟨⟨⟨k, hk⟩, hissued⟩, htidy, _⟩, hrest⟩
        rw [View.below, View.children_of_kind hk] at hrest
        rw [View.children_of_kind hk] at hissued
        have howns := htidy.owns
        have hnamed := htidy.named
        rw [View.children_of_kind hk] at howns hnamed
        exact ⟨k, _, ⟨hk, rfl⟩, htidy.live,
          fun c hc => ⟨howns c hc, hissued c hc, hnamed c hc⟩, hrest⟩

/-! ## Reporting nothing is being in order -/

theorem cleared_of_ownershipWithin {depth : Nat}
    (h : (gatherReports (a.ownershipWithin depth) xs).run seen = .ok ([], seen')) :
    ∃ ss, a.view.Cleared xs ss seen seen' := by
  -- The levels run out first, and within a level the places.
  induction depth generalizing xs seen seen' with
  | zero =>
      cases xs with
      | nil =>
          rw [gatherReports_nil.1 h]
          exact ⟨[], .nil a.view seen'⟩
      | cons x xs =>
          rcases gatherReports_cons.1 h with ⟨_, hx, _⟩
          cases hx
  | succ depth ih =>
      induction xs generalizing seen with
      | nil =>
          rw [gatherReports_nil.1 h]
          exact ⟨[], .nil a.view seen'⟩
      | cons x xs ihXs =>
          rcases gatherReports_cons.1 h with ⟨seen₁, hx, hxs⟩
          rcases ownershipWithin_eq_nil.1 hx with ⟨⟨hresolves, htidy, hunseen⟩, hbelow⟩
          rcases ih hbelow with ⟨inner, hinner⟩
          rcases ihXs hxs with ⟨outer, houter⟩
          exact ⟨_, (View.Cleared.cons hresolves htidy hunseen hinner).append houter⟩

theorem ownershipWithin_of_visits {depth : Nat} (h : a.view.Meets xs ss)
    (hunique : ss.Nodup) (hunseen : ∀ t ∈ ss, seen.get t.index = false)
    (htidy : ∀ t ∈ ss, a.view.Tidy t) (hdepth : ss.length ≤ depth) :
    ∃ seen', (gatherReports (a.ownershipWithin depth) xs).run seen = .ok ([], seen') ∧
      View.Marks seen ss seen' := by
  induction h generalizing seen depth with
  | nil => exact ⟨seen, gatherReports_nil.2 rfl, fun t => by simp⟩
  | @cons x xs inner outer hx _ _ ihInner ihOuter =>
      rcases depth with _ | depth
      · simp at hdepth
      · simp only [List.length_cons, List.length_append] at hdepth
        have hinnerDepth : inner.length ≤ depth := by omega
        have houterDepth : outer.length ≤ depth + 1 := by omega
        rcases List.nodup_cons.1 hunique with ⟨hxNot, hrest⟩
        rcases List.nodup_append.1 hrest with ⟨hinner, houter, hdisjoint⟩
        have hmark : ∀ t ∈ inner, (seen.set x.index true).get t.index = false := by
          intro t ht
          have hne : x.index ≠ t.index := by
            intro hidx
            exact hxNot (stmtIndex_eq_iff.1 hidx ▸ List.mem_append_left _ ht)
          rw [Column.get_set, if_neg hne]
          exact hunseen t (List.mem_cons_of_mem x (List.mem_append_left _ ht))
        rcases ihInner hinner hmark
          (fun t ht => htidy t (List.mem_cons_of_mem x (List.mem_append_left _ ht)))
          hinnerDepth with ⟨seen₁, hbelow, hmarks⟩
        have hcheck := ownershipWithin_eq_nil.2
          ⟨⟨hx, htidy x List.mem_cons_self, hunseen x List.mem_cons_self⟩, hbelow⟩
        -- Below `x` only what is there was marked, and none of that is met again.
        have hunseen₁ : ∀ t ∈ outer, seen₁.get t.index = false := by
          intro t ht
          have htx : t ≠ x := by
            rintro rfl
            exact hxNot (List.mem_append_right _ ht)
          have htInner : t ∉ inner := fun hmem => hdisjoint t hmem t ht rfl
          rw [hmarks.set t, hunseen t (List.mem_cons_of_mem x (List.mem_append_right _ ht))]
          simp [htx, htInner]
        rcases ihOuter houter hunseen₁
          (fun t ht => htidy t (List.mem_cons_of_mem x (List.mem_append_right _ ht)))
          houterDepth with ⟨seen', hothers, hmarks'⟩
        exact ⟨seen', gatherReports_cons.2 ⟨seen₁, hcheck, hothers⟩, hmarks.set.trans hmarks'⟩

/-- No more statements can be met once each than there are. -/
theorem length_le_of_meets (h : a.view.Meets xs ss) (hunique : ss.Nodup) :
    ss.length ≤ a.stmts.size := by
  have hinj : Function.Injective StmtId.index := by
    intro s t hst
    exact (stmtIndex_eq_iff.1 hst).symm
  have hsub : ss.map StmtId.index ⊆ List.range a.stmts.size := by
    intro i hi
    rcases List.mem_map.1 hi with ⟨t, ht, rfl⟩
    have hissued : a.view.HasStmt t := (Visits.enter_of_mem h ht).1
    exact List.mem_range.2 hissued
  simpa using ((hunique.map hinj).subperm hsub).length_le

/-- From an unmarked start the checks of some places report nothing exactly if the descent from them
ends, meets every statement once, and finds all of them in order. -/
theorem exists_ownership_eq_nil :
    (∃ seen', (gatherReports (a.ownershipWithin (a.stmts.size + 1)) xs).run Column.empty =
      .ok ([], seen')) ↔ ∃ ss, a.view.Meets xs ss ∧ ss.Nodup ∧ ∀ s ∈ ss, a.view.Tidy s := by
  constructor
  · rintro ⟨seen', h⟩
    rcases cleared_of_ownershipWithin h with ⟨ss, hcleared⟩
    exact ⟨ss, hcleared.meets, hcleared.nodup, hcleared.tidy⟩
  · rintro ⟨ss, hmeets, hunique, htidy⟩
    have hlength := length_le_of_meets hmeets hunique
    rcases ownershipWithin_of_visits hmeets hunique
      (fun t _ => Column.get_empty t.index) htidy (Nat.le_succ_of_le hlength) with ⟨seen', h, _⟩
    exact ⟨seen', h⟩

theorem run'_eq_nil {x : StateT Seen (Except Fault) (List OwnershipDefect)} :
    x.run' Column.empty = .ok [] ↔ ∃ seen', x.run Column.empty = .ok ([], seen') := by
  show Prod.fst <$> x.run Column.empty = _ ↔ _
  cases x.run Column.empty with
  | error fault => simp
  | ok r =>
      rcases r with ⟨ds, seen⟩
      simp

/-- The check reports nothing exactly if the descent from the root ends, meets every statement once,
and finds all of them in order, and what a root block lists names it. -/
theorem ownershipDefects_eq_nil {root : Node} :
    a.ownershipDefects root = .ok [] ↔
      ∃ ss, a.view.MeetsFrom root ss ∧ ss.Nodup ∧ (∀ s ∈ ss, a.view.Tidy s) ∧
        ∀ b, root = .block b → ∀ t ∈ a.view.listed b, a.view.parent? t = some b := by
  cases root with
  | stmt s =>
      have hone : ∀ seen',
          (a.ownershipWithin (a.stmts.size + 1) s).run Column.empty = .ok ([], seen') ↔
            (gatherReports (a.ownershipWithin (a.stmts.size + 1)) [s]).run Column.empty =
              .ok ([], seen') := by
        intro seen'
        simp [gatherReports_cons, gatherReports_nil]
      rw [ownershipDefects, run'_eq_nil]
      simp [hone, exists_ownership_eq_nil, View.MeetsFrom, View.tops]
  | block b =>
      rw [ownershipDefects, run'_eq_nil]
      simp only [listingDefects_eq_nil, View.MeetsFrom, View.tops, Node.block.injEq, forall_eq']
      constructor
      · rintro ⟨seen', ⟨hb, hnamed⟩, h⟩
        rcases exists_ownership_eq_nil.1 ⟨seen', h⟩ with ⟨ss, hmeets, hunique, htidy⟩
        exact ⟨ss, ⟨hb, hmeets⟩, hunique, htidy, hnamed⟩
      · rintro ⟨ss, ⟨hb, hmeets⟩, hunique, htidy, hnamed⟩
        rcases exists_ownership_eq_nil.2 ⟨ss, hmeets, hunique, htidy⟩ with ⟨seen', h⟩
        exact ⟨seen', ⟨hb, hnamed⟩, h⟩

end Arena

end KernelIR
