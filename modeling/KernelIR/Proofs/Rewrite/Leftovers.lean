import KernelIR.Proofs.Rewrite.OnePass

/-!
# After a refusal

A run that ends because a replacement was refused leaves what the generator made in the arena, live
and detached. A later run sees nothing of that in the tree, but it meets it when it erases: what was
refused because it reads something below the match still reads it. So a leaf, which would have taken
the place of the match before, may be accepted now and nevertheless not be able to replace it. Apart
from this the later run does what it would have done without the earlier one.
-/

namespace KernelIR

open View (turn)

namespace Rule

variable {σ : Type} {rule : Rule σ} {options : RunOptions} {a a₀ a₁ : Arena} {st st₁ : σ}
  {root : Node} {b : BlockId} {s r r₀ : StmtId} {ss doomed : List StmtId}

/-- From `x` on the rule matches `s`, makes a leaf for it, and then matches nothing any more. -/
structure ReplacesOnly (rule : Rule σ) (options : RunOptions) (x : Position σ) (s : StmtId) :
    Prop where
  allows : options.Allows x.replacements
  finds : ∃ st, (rule.findMatch x.arena x.root).run x.state = .ok (some s, st) ∧
    rule.MakesLeaf (fun _ => false) x.arena st
  settles : ∀ y, rule.Next options x y →
    ∃ st, (rule.findMatch y.arena y.root).run y.state = .ok (none, st)

/-- A run that replaces one statement by a leaf ends well if nothing outside reads what goes, and
with the fault of the erasure otherwise. -/
theorem ReplacesOnly.run (h : rule.ReplacesOnly options (start a st root) s) (ha : a.Arises)
    (howns : a.view.Owns s doomed) (hlive : a.view.erased s = false) (hbudget : 1 < options.budget) :
    (a.view.UnreadBut s doomed → ∃ out, (rule.run options a st root).result = .ok out ∧
      out.result = .ok ⟨1, 2, root.follow s ⟨a.view.stmtCount⟩⟩ ∧
      (∀ c, out.arena.view.listed c = (a.view.listed c).map (turn s ⟨a.view.stmtCount⟩)) ∧
      ∀ t, out.arena.view.erased t = (decide (t ∈ doomed) || a.view.erased t)) ∧
    (¬ a.view.UnreadBut s doomed → ∃ t ∈ doomed, ∃ n,
      (rule.run options a st root).result = .error (.erasedUsed t n)) := by
  rcases h.finds with ⟨st₀, hfind, k, ty, r, a', st', hk, _, hcreate, hgenerate⟩
  rcases ha.replace_by_leaf howns hk hcreate with ⟨haccepted, hok, hfault⟩
  have hround := roundAt_of_accepted h.allows hfind (howns.hasStmt howns.self_mem) hgenerate
    haccepted
  have hr : r = ⟨a.view.stmtCount⟩ := (Arena.of_createStmt hcreate).1
  constructor
  · intro hunread
    rcases hok hunread with ⟨e, he, hview⟩
    have hlinks := ha.links_of_leaf hk hcreate hlive hview
    subst hr
    rw [he] at hround
    let y : Position σ := ⟨1, e.arena, st', root.follow s ⟨a.view.stmtCount⟩⟩
    have hnext : rule.Next options (start a st root) y := ⟨s, _, hround, rfl, rfl⟩
    rcases h.settles y hnext with ⟨st₁, hnone⟩
    have hends : rule.Ends options y ⟨.ok ⟨1, 2, y.root⟩, e.arena, st₁⟩ :=
      .settled (roundAt_eq_settled.2 hnone)
    exact ⟨_, run_eq_ok.2 ⟨y, .single hnext, hbudget, hends⟩, rfl, hlinks⟩
  · intro hread
    rcases hfault hread with ⟨t, ht, n, herror⟩
    rw [herror] at hround
    obtain ⟨budget, hsucc⟩ : ∃ budget, options.budget = budget + 1 :=
      ⟨options.budget - 1, by omega⟩
    refine ⟨t, ht, n, ?_⟩
    show (rule.rounds options options.budget 0 0 a st root).result = _
    rw [hsucc]
    exact rounds_of_fault hround budget

/-- The refused run has only added statements. -/
theorem AddsOnly.adds_of_refused (h : rule.AddsOnly) {reason : Refusal}
    (hrefused : rule.Ends options (start a st root) ⟨.error (.refused s r reason), a₁, st₁⟩) :
    a.Adds a₁ := by
  cases hrefused with
  | failed hround =>
      rcases of_refused hround with ⟨_, _, hgenerate, _⟩
      exact h _ _ _ _ _ hgenerate

/-- Let a leaf be able to replace the statement `s` of a valid tree, and let a run that only makes
statements without blocks end with a refusal at `s` before it has replaced anything. Then a run that
replaces `s` by a leaf ends well exactly if nothing that the refused run left reads something that
goes with `s`, other than `s` itself, and otherwise has the fault of the erasure. If it ends well,
the blocks list what they would list without the refused run, but for the handle of the leaf, and
the same statements are tombstones. -/
theorem run_after_refusal (h : a.Arises) (hpasses : a.Passes (.block b))
    (hss : a.collect (.block b) = .ok ss) (hs : s ∈ ss) {k₀ : Kind} {ty₀ : ScalarType}
    {e₀ : Arena.Erasure} (hk₀ : k₀.IsLeaf) (hcreate₀ : a.createStmt k₀ ty₀ = .ok (r₀, a₀))
    (hreplace₀ : a₀.replace s r₀ = .ok e₀) (hadds : rule.AddsOnly) {reason : Refusal}
    (hrefused : rule.Ends options (start a st root) ⟨.error (.refused s r reason), a₁, st₁⟩) :
    ∃ doomed, a.owned s = .ok doomed ∧
      ∀ (τ : Type) (next : Rule τ) (options' : RunOptions) (st' : τ), 1 < options'.budget →
        next.ReplacesOnly options' (start a₁ st' (.block b)) s →
          ((∃ out, (next.run options' a₁ st' (.block b)).result = .ok out) ↔
            ¬ a.view.ReadByNew a₁.view s doomed) ∧
          (a.view.ReadByNew a₁.view s doomed → ∃ t ∈ doomed, ∃ n,
            (next.run options' a₁ st' (.block b)).result = .error (.erasedUsed t n)) ∧
          ∀ out, (next.run options' a₁ st' (.block b)).result = .ok out →
            out.result = .ok ⟨1, 2, .block b⟩ ∧
            (∀ c, out.arena.view.listed c =
              (e₀.arena.view.listed c).map (turn r₀ ⟨a₁.stmts.size⟩)) ∧
            ∀ t, out.arena.isErased t = e₀.arena.isErased t := by
  rcases h.exists_valid_of_passes hpasses with ⟨ss', hvalid⟩
  cases (Arena.collect_eq_ok.1 hss).2.unique hvalid.meets.2
  have hlive := hvalid.live s hs
  rcases hvalid.exists_owns hs with ⟨doomed, howns⟩
  -- Without the refused run nothing stands in the way of the leaf.
  rcases h.replace_by_leaf howns hk₀ hcreate₀ with ⟨_, hok₀, hfault₀⟩
  have hunread : a.view.UnreadBut s doomed := by
    by_contra hread
    rcases hfault₀ hread with ⟨t, _, n, herror⟩
    rw [hreplace₀] at herror
    cases herror
  rcases hok₀ hunread with ⟨e, he, hview₀⟩
  cases hreplace₀.symm.trans he
  rcases h.links_of_leaf hk₀ hcreate₀ hlive hview₀ with ⟨hlisted₀, herased₀⟩
  have hfresh := (h.created_leaf hk₀ hcreate₀).2.1
  -- After it everything is in place for the run that follows, but there may be new readers.
  have hadded := hadds.adds_of_refused hrefused
  have harises₁ := hadded.arises h
  have hview₁ := hadded.view h
  have hunread₁ : a₁.view.UnreadBut s doomed ↔ ¬ a.view.ReadByNew a₁.view s doomed := by
    rw [hview₁.unreadBut_iff h.indexed howns]
    exact and_iff_right hunread
  have hlive₁ : a₁.view.erased s = false := by
    rw [hview₁.erased]
    exact hlive
  refine ⟨doomed, Arena.owned_eq_ok.2 howns, ?_⟩
  intro τ next options' st' hbudget honly
  rcases honly.run harises₁ (hview₁.owns howns) hlive₁ hbudget with ⟨hok, hfault⟩
  rw [hunread₁] at hok hfault
  have hends : (∃ out, (next.run options' a₁ st' (.block b)).result = .ok out) ↔
      ¬ a.view.ReadByNew a₁.view s doomed := by
    constructor
    · rintro ⟨out, hrun⟩ hread
      rcases hfault (not_not.2 hread) with ⟨t, _, n, herror⟩
      rw [hrun] at herror
      cases herror
    · intro hclear
      rcases hok hclear with ⟨out, hrun, _⟩
      exact ⟨out, hrun⟩
  refine ⟨hends, fun hread => hfault (not_not.2 hread), ?_⟩
  intro out hrun
  rcases hok (hends.1 ⟨out, hrun⟩) with ⟨out', hrun', hresult, hlisted, herased⟩
  cases hrun.symm.trans hrun'
  refine ⟨hresult, fun c => ?_, fun t => ?_⟩
  · have hnot : r₀ ∉ a.view.listed c := fun hmem =>
      hfresh (h.linked.issued_of_listed c r₀ hmem).1
    rw [hlisted, hlisted₀, hview₁.listed, View.map_turn_turn hnot]
    rfl
  · calc
      out.arena.isErased t = (decide (t ∈ doomed) || a₁.view.erased t) := herased t
      _ = (decide (t ∈ doomed) || a.view.erased t) := by rw [hview₁.erased]
      _ = e₀.arena.isErased t := (herased₀ t).symm

/-! ## A loop with a constant -/

/-- A loop with a constant in its body. -/
def loopOverConst : List Edit :=
  [.createBlock, .createBlock, .createStmt (.whileLoop ⟨1⟩) .void, .push ⟨0⟩ ⟨0⟩,
    .createStmt (.const (.int 1)) .i32, .push ⟨1⟩ ⟨1⟩]

/-- The same with a detached negation of `x`. -/
def withNegation (x : StmtId) : List Edit :=
  loopOverConst ++ [.createStmt (.unary .neg x) .i32]

/-- A constant for the loop, and the negation of the loop that has come to read it. -/
def constBesideNegation : List Edit :=
  withNegation ⟨0⟩ ++ [.createStmt (.const (.int 0)) .i32, .replace ⟨0⟩ ⟨3⟩]

/-- Loops are to become the negation of `x`. -/
def negationForLoop (x : StmtId) : Rule Unit where
  test := constForLoop.test
  generate a := do
    let (s, a) ← (a.createStmt (.unary .neg x) .i32 : Except Fault _)
    return (.ok s, a)

theorem addsOnly_negationForLoop (x : StmtId) : (negationForLoop x).AddsOnly := by
  intro a st answer a' st' hgenerate
  cases hcreate : a.createStmt (.unary .neg x) .i32 with
  | error fault =>
      simp only [negationForLoop, hcreate] at hgenerate
      cases hgenerate
  | ok made =>
      rcases made with ⟨s, made⟩
      simp only [negationForLoop, hcreate] at hgenerate
      cases hgenerate
      exact .create .start rfl hcreate

/-- The negation of the constant is refused and is in the way of a constant for the loop later. The
negation of the loop itself is refused, too, but it is not. -/
theorem run_after_refusal_loop_over_const :
    (negationForLoop ⟨1⟩).Ends ⟨none, 1⟩ (start (Arena.ofEdits loopOverConst) () (.block ⟨0⟩))
        ⟨.error (.refused ⟨0⟩ ⟨2⟩ .readsDiscarded), Arena.ofEdits (withNegation ⟨1⟩), ()⟩ ∧
      (∃ t ∈ [⟨0⟩, ⟨1⟩], ∃ n,
        (constForLoop.run ⟨none, 2⟩ (Arena.ofEdits (withNegation ⟨1⟩)) () (.block ⟨0⟩)).result =
          .error (.erasedUsed t n)) ∧
      (negationForLoop ⟨0⟩).Ends ⟨none, 1⟩ (start (Arena.ofEdits loopOverConst) () (.block ⟨0⟩))
        ⟨.error (.refused ⟨0⟩ ⟨2⟩ .readsMatched), Arena.ofEdits (withNegation ⟨0⟩), ()⟩ ∧
      ∃ out, (constForLoop.run ⟨none, 2⟩ (Arena.ofEdits (withNegation ⟨0⟩)) ()
          (.block ⟨0⟩)).result = .ok out ∧
        out.result = .ok ⟨1, 2, .block ⟨0⟩⟩ ∧ out.arena.view.listed ⟨0⟩ = [⟨3⟩] := by
  have harises := Arena.arises_ofEdits loopOverConst
  have hvalidate : (Arena.ofEdits loopOverConst).validate (.block ⟨0⟩) = .ok ⟨[], [], [], []⟩ := by
    decide +kernel
  have hpasses : (Arena.ofEdits loopOverConst).Passes (.block ⟨0⟩) := ⟨_, hvalidate, rfl⟩
  have hcollect : (Arena.ofEdits loopOverConst).collect (.block ⟨0⟩) = .ok [⟨0⟩, ⟨1⟩] := by
    decide +kernel
  have howned : (Arena.ofEdits loopOverConst).owned ⟨0⟩ = .ok [⟨0⟩, ⟨1⟩] := by decide +kernel
  -- A constant can replace the loop as long as there is no negation.
  have hreference : (do
      let (r, a) ← (Arena.ofEdits loopOverConst).createStmt (.const (.int 0)) .i32
      let e ← a.replace ⟨0⟩ r
      return (r, e.arena.view.listed ⟨0⟩)) = .ok (⟨2⟩, [⟨2⟩]) := by decide +kernel
  rcases bind_eq_ok.1 hreference with ⟨⟨r₀, a₀⟩, hcreate₀, hrest⟩
  rcases bind_eq_ok.1 hrest with ⟨e₀, hreplace₀, hlisted₀⟩
  simp only [pure_eq_ok, Prod.mk.injEq] at hlisted₀
  rcases hlisted₀ with ⟨rfl, hlisted₀⟩
  have hrefused₁ : (negationForLoop ⟨1⟩).Ends ⟨none, 1⟩
      (start (Arena.ofEdits loopOverConst) () (.block ⟨0⟩))
      ⟨.error (.refused ⟨0⟩ ⟨2⟩ .readsDiscarded), Arena.ofEdits (withNegation ⟨1⟩), ()⟩ :=
    .failed (by decide +kernel)
  have hrefused₂ : (negationForLoop ⟨0⟩).Ends ⟨none, 1⟩
      (start (Arena.ofEdits loopOverConst) () (.block ⟨0⟩))
      ⟨.error (.refused ⟨0⟩ ⟨2⟩ .readsMatched), Arena.ofEdits (withNegation ⟨0⟩), ()⟩ :=
    .failed (by decide +kernel)
  have hallows : (⟨none, 2⟩ : RunOptions).Allows 0 := fun _ hlimit => nomatch hlimit
  have hmakes : ∀ a, constForLoop.MakesLeaf (fun _ => false) a () := fun _ =>
    ⟨.const (.int 0), .i32, _, _, (), ⟨rfl, rfl⟩, rfl, rfl, rfl⟩
  have hfault : constForLoop.roundAt ⟨none, 2⟩
      (start (Arena.ofEdits (withNegation ⟨1⟩)) () (.block ⟨0⟩)) = .error (.erasedUsed ⟨1⟩ 1) := by
    decide +kernel
  have honly₁ : constForLoop.ReplacesOnly ⟨none, 2⟩
      (start (Arena.ofEdits (withNegation ⟨1⟩)) () (.block ⟨0⟩)) ⟨0⟩ := by
    refine ⟨hallows, ⟨(), by decide +kernel, hmakes _⟩, ?_⟩
    rintro y ⟨s, r, hround, _⟩
    rw [hfault] at hround
    cases hround
  have hnext : constForLoop.roundAt ⟨none, 2⟩
      (start (Arena.ofEdits (withNegation ⟨0⟩)) () (.block ⟨0⟩)) =
        .ok (.replaced ⟨0⟩ ⟨3⟩ (Arena.ofEdits constBesideNegation) ()) := by
    decide +kernel
  have hnone : (constForLoop.findMatch (Arena.ofEdits constBesideNegation) (.block ⟨0⟩)).run () =
      .ok (none, ()) := by decide +kernel
  have honly₂ : constForLoop.ReplacesOnly ⟨none, 2⟩
      (start (Arena.ofEdits (withNegation ⟨0⟩)) () (.block ⟨0⟩)) ⟨0⟩ := by
    refine ⟨hallows, ⟨(), by decide +kernel, hmakes _⟩, ?_⟩
    rintro ⟨k, a, st, root⟩ ⟨s, r, hround, _, hroot⟩
    rw [hnext] at hround
    cases hround
    cases hroot
    exact ⟨(), hnone⟩
  refine ⟨hrefused₁, ?_, hrefused₂, ?_⟩
  · rcases run_after_refusal harises hpasses hcollect (by decide) ⟨rfl, rfl⟩ hcreate₀ hreplace₀
      (addsOnly_negationForLoop ⟨1⟩) hrefused₁ with ⟨doomed, howned', hall⟩
    cases howned.symm.trans howned'
    rcases hall Unit constForLoop ⟨none, 2⟩ () (by decide) honly₁ with ⟨_, hread, _⟩
    exact hread ⟨⟨2⟩, ⟨1⟩, by decide +kernel⟩
  · rcases run_after_refusal harises hpasses hcollect (by decide) ⟨rfl, rfl⟩ hcreate₀ hreplace₀
      (addsOnly_negationForLoop ⟨0⟩) hrefused₂ with ⟨doomed, howned', hall⟩
    cases howned.symm.trans howned'
    rcases hall Unit constForLoop ⟨none, 2⟩ () (by decide) honly₂ with ⟨hends, _, hsame⟩
    have hclear : ¬ (Arena.ofEdits loopOverConst).view.ReadByNew
        (Arena.ofEdits (withNegation ⟨0⟩)).view ⟨0⟩ [⟨0⟩, ⟨1⟩] :=
      (Arena.arises_ofEdits (withNegation ⟨0⟩)).indexed.not_readByNew (by decide +kernel)
    rcases hends.2 hclear with ⟨out, hrun⟩
    rcases hsame out hrun with ⟨hresult, hlisted, _⟩
    have hcount : (Arena.ofEdits (withNegation ⟨0⟩)).stmts.size = 3 := by decide +kernel
    refine ⟨out, hrun, hresult, ?_⟩
    rw [hlisted, hlisted₀, hcount]
    rfl

end Rule

end KernelIR
