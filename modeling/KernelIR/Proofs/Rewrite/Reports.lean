import KernelIR.Proofs.Construction.Growth
import KernelIR.Proofs.Rewrite.Bounds
import KernelIR.Proofs.Rewrite.Confined
import KernelIR.Proofs.Rewrite.Failing
import KernelIR.Proofs.Rewrite.Leaves
import Mathlib.Algebra.GroupWithZero.Nat

/-!
# What a run reports

The events of a run tell all that it did. Each replacement leaves three of them, for the match, for
the erasure of the match with all that it owned, and for what took its place; one more tells how the
run ended. A statement of a valid tree is erased at most once and the run keeps the tree valid, so
the statements that are gone after the run can be counted by its events.
-/

namespace KernelIR

/-! ## Statements that are lost -/

namespace View

variable {v w w' : View} {gone more : List StmtId} {root : Node} {ss doomed : List StmtId}
  {s : StmtId}

/-- The statements `gone`, live in `v`, are erased in `w`, and no others. -/
structure Loses (v w : View) (gone : List StmtId) : Prop where
  nodup : gone.Nodup
  live : ∀ t ∈ gone, v.erased t = false
  erased : ∀ t, w.erased t = (decide (t ∈ gone) || v.erased t)

namespace Loses

theorem of_erased_eq (h : w.erased = v.erased) : v.Loses w [] where
  nodup := List.nodup_nil
  live _ ht := nomatch ht
  erased t := by simp [h]

theorem trans (h : v.Loses w gone) (h' : w.Loses w' more) : v.Loses w' (gone ++ more) where
  nodup := by
    refine List.nodup_append.2 ⟨h.nodup, h'.nodup, ?_⟩
    -- What went first was erased when the others were still live.
    rintro t ht _ hmore rfl
    have hlive := h'.live t hmore
    simp [h.erased, ht] at hlive
  live t ht := by
    rcases List.mem_append.1 ht with ht | ht
    · exact h.live t ht
    · have hlive := h'.live t ht
      rw [h.erased, Bool.or_eq_false_iff] at hlive
      exact hlive.2
  erased t := by
    rw [h'.erased, h.erased]
    by_cases ht : t ∈ gone <;> by_cases hmore : t ∈ more <;> simp [ht, hmore]

theorem countP_eq (h : v.Loses w gone) {n : Nat} (hissued : ∀ t ∈ gone, t.index < n) :
    (handles 0 n).countP (fun t => w.erased t && !v.erased t) = gone.length := by
  have hperm : ((handles 0 n).filter fun t => w.erased t && !v.erased t).Perm gone := by
    refine (List.perm_ext_iff_of_nodup ((nodup_handles 0 n).filter _) h.nodup).2 fun t => ?_
    rw [List.mem_filter, mem_handles, h.erased]
    constructor
    · rintro ⟨_, hlost⟩
      by_contra ht
      simp [ht] at hlost
    · intro ht
      simp [ht, h.live t ht, hissued t ht]
  rw [List.countP_eq_length_filter, hperm.length_eq]

end Loses

/-- What goes with a statement of a valid tree is all that is below it, and was live. -/
theorem Valid.loses (h : v.Valid root ss) (hlinked : v.Linked) (hs : s ∈ ss)
    (howns : v.Owns s doomed) (herased : ∀ t, w.erased t = (decide (t ∈ doomed) || v.erased t)) :
    v.Loses w doomed := by
  rcases Visits.exists_segment h.meets.2 hs with ⟨front, segment, back, hsegment, rfl⟩
  have hdoomed : doomed = segment := howns.unique (h.owns_segment hs hsegment)
  subst hdoomed
  have honce : (front ++ (doomed ++ back)).Nodup := h.nodup hlinked
  refine ⟨?_, fun t ht => h.live t ?_, herased⟩
  · exact (List.nodup_append.1 (List.nodup_append.1 honce).2.1).1
  · exact List.mem_append_right front (List.mem_append_left back ht)

end View

/-! ## Events -/

/-- A replacement: what was matched, of which kind, what took its place, and how many statements
went with the match. -/
structure Swap where
  stmt : StmtId
  kind : String
  replacement : StmtId
  discarded : Nat

def Swap.events (swap : Swap) : List Event :=
  [.matched swap.stmt swap.kind, .erased swap.stmt swap.discarded,
    .replaced swap.stmt swap.replacement]

/-- How many statements are erased according to an event. -/
def Event.erasures : Event → Nat
  | .erased _ discarded => discarded + 1
  | _ => 0

theorem sum_erasures (swaps : List Swap) :
    ((swaps.flatMap Swap.events).map Event.erasures).sum =
      (swaps.map fun swap => swap.discarded + 1).sum := by
  induction swaps with
  | nil => rfl
  | cons swap swaps ih =>
      have hswap : (swap.events.map Event.erasures).sum = swap.discarded + 1 := by
        simp [Swap.events, Event.erasures]
      rw [List.flatMap_cons, List.map_append, List.sum_append, hswap, ih, List.map_cons,
        List.sum_cons]

/-- The last event of a run that ends at `x`, by its result. -/
def Position.Closes {σ : Type} (x : Position σ) (event : Event) : Except RewriteError Summary → Prop
  | .ok summary => event = .fixedPoint summary.replacements summary.traversals
  | .error (.nonConvergent limit s) => event = .notConverging s limit
  | .error (.generator s _) | .error (.refused s _ _) =>
    ∃ k, x.arena.kind s = .ok k ∧ event = .matched s k.name

/-- The last event does not tell of an erasure. -/
theorem Position.Closes.erasures {σ : Type} {x : Position σ} {event : Event}
    {result : Except RewriteError Summary} (h : x.Closes event result) : event.erasures = 0 := by
  cases result with
  | ok summary =>
      cases h
      rfl
  | error error =>
      cases error with
      | nonConvergent limit s =>
          cases h
          rfl
      | generator s reason | refused s r reason =>
          rcases h with ⟨k, _, rfl⟩
          rfl

namespace Rule

variable {σ : Type} (rule : Rule σ) (options : RunOptions)

/-- A run that is at `x` makes the replacements `swaps` and is then at `y`. -/
inductive Performs (x : Position σ) : List Swap → Position σ → Prop
  | nothing : Performs x [] x
  | next {y z : Position σ} {swaps : List Swap} {s replacement : StmtId} {k : Kind}
      {others : List StmtId} :
      Performs x swaps y →
        rule.roundAt options y = .ok (.replaced s replacement z.arena z.state) →
          z.replacements = y.replacements + 1 → z.root = y.root.follow s replacement →
            y.arena.kind s = .ok k → y.arena.owned s = .ok (s :: others) →
              Performs x (swaps ++ [⟨s, k.name, replacement, others.length⟩]) z

/-- Wherever a run from `x` comes to a match, the generator reports nothing. -/
def QuietFrom (x : Position σ) : Prop :=
  ∀ y s st, rule.Reaches options x y →
    (rule.findMatch y.arena y.root).run y.state = .ok (some s, st) →
      ((rule.generate y.arena).run st).log = []

variable {rule options} {x y : Position σ} {swaps : List Swap}
  {out : Outcome σ RewriteError Summary} {s r : StmtId} {k : Kind}

theorem Performs.makes (h : rule.Performs options x swaps y) :
    rule.Makes options x (swaps.map fun swap => (swap.stmt, swap.replacement)) y := by
  induction h with
  | nothing => exact .nothing
  | next _ hround hcount hroot _ _ ih =>
      rw [List.map_append]
      exact ih.next hround hcount hroot

theorem Performs.reaches (h : rule.Performs options x swaps y) : rule.Reaches options x y :=
  h.makes.reaches

theorem Performs.replacements (h : rule.Performs options x swaps y) :
    y.replacements = x.replacements + swaps.length := by
  have hcount := h.makes.replacements
  rwa [List.length_map] at hcount

/-! ## The events of a round -/

/-- Once a match may be replaced, the round reports it and goes on with the replacement. -/
theorem round_of_match {st : σ} (hallows : options.Allows x.replacements)
    (hfind : (rule.findMatch x.arena x.root).run x.state = .ok (some s, st)) :
    rule.round options x.replacements x.arena x.state x.root =
      reportMatch x.arena s >>= fun _ => rule.substitute x.arena st s := by
  rw [round_of_allows hallows, round, Logged.bind_of_ok hfind]
  rfl

theorem reportMatch_of_kind {a : Arena} (hk : a.kind s = .ok k) :
    reportMatch a s = Logged.emit (.matched s k.name) := by
  rw [reportMatch, Logged.bind_of_ok hk]
  rfl

theorem log_round_of_match {st : σ} (hallows : options.Allows x.replacements)
    (hfind : (rule.findMatch x.arena x.root).run x.state = .ok (some s, st))
    (hk : x.arena.kind s = .ok k) :
    (rule.round options x.replacements x.arena x.state x.root).log =
      ⟨[], .matched s k.name⟩ :: (rule.substitute x.arena st s).log := by
  rw [round_of_match hallows hfind, reportMatch_of_kind hk,
    Logged.log_bind_of_ok (Logged.result_emit _), Logged.log_emit, List.singleton_append]

/-- A match that the round went on from has a kind, which was reported. -/
theorem exists_kind_of_match {st : σ} {round : Round σ} (hallows : options.Allows x.replacements)
    (hfind : (rule.findMatch x.arena x.root).run x.state = .ok (some s, st))
    (hround : rule.roundAt options x = .ok round) : ∃ k, x.arena.kind s = .ok k := by
  rw [roundAt, round_of_match hallows hfind, Logged.result_bind_eq_ok] at hround
  rcases hround with ⟨_, hreport, _⟩
  rw [reportMatch, Logged.result_bind_eq_ok] at hreport
  rcases hreport with ⟨k, hk, _⟩
  exact ⟨k, hk⟩

/-- A generator that reports nothing and fails, or is refused, leaves nothing to report. -/
theorem log_substitute_of_failed {a a' : Arena} {st st' : σ} {error : RewriteError}
    (hquiet : ((rule.generate a).run st).log = [])
    (h : (rule.substitute a st s).result = .ok (.failed error a' st')) :
    (rule.substitute a st s).log = [] := by
  rcases of_substitute h with ⟨answer, a₁, st₁, hgenerate, ⟨reason, rfl, _⟩ |
    ⟨r, rfl, ⟨reason, hrefusal, _⟩ | ⟨_, _, _, hend⟩⟩⟩
  · -- The generator failed.
    rw [substitute, Logged.log_bind_of_ok hgenerate, hquiet]
    rfl
  · -- Its replacement was refused, and a refusal is not reported.
    rw [substitute, Logged.log_bind_of_ok hgenerate, hquiet]
    show (liftM (a₁.refusal? s r) >>= _ : Logged _).log = []
    rw [Logged.log_bind_of_ok hrefusal]
    rfl
  · cases hend

theorem log_substitute_of_replace {a a₁ : Arena} {st st₁ : σ} {e : Arena.Erasure}
    (hquiet : ((rule.generate a).run st).log = [])
    (hgenerate : ((rule.generate a).run st).result = .ok ((.ok r, a₁), st₁))
    (hrefusal : a₁.refusal? s r = .ok none) (he : a₁.replace s r = .ok e) :
    (rule.substitute a st s).log = [⟨[], .erased s e.discarded⟩, ⟨[], .replaced s r⟩] := by
  -- The erasure is reported by the edit, the replacement behind it by the run.
  have happly : (Edit.replace s r).apply a₁ =
      ⟨[⟨[], .erased s e.discarded⟩], .ok (.done, e.arena)⟩ := by
    rw [Edit.apply, Logged.bind_of_ok he]
    rfl
  rw [substitute, Logged.log_bind_of_ok hgenerate, hquiet]
  show (liftM (a₁.refusal? s r) >>= _ : Logged _).log = _
  rw [Logged.log_bind_of_ok hrefusal]
  show ((Edit.replace s r).apply a₁ >>= _).log = _
  rw [happly]
  rfl

/-- A round that replaces something reports the match, the erasure of all that the match owned, and
what took its place. The tree was valid, so all that is erased was live. -/
theorem exists_swap (hreach : rule.Reaches options x y) (harises : x.arena.Arises)
    (hpasses : x.arena.Passes x.root) (hadds : rule.AddsReadersFrom options x)
    (hquiet : rule.QuietFrom options x) {a : Arena} {st : σ}
    (hround : rule.roundAt options y = .ok (.replaced s r a st)) :
    ∃ k others, y.arena.kind s = .ok k ∧ y.arena.owned s = .ok (s :: others) ∧
      (rule.round options y.replacements y.arena y.state y.root).log =
        (Swap.events ⟨s, k.name, r, others.length⟩).map (Record.mk []) ∧
      y.arena.view.Loses a.view (s :: others) := by
  rcases hreach.passes_of_addsReaders hadds harises hpasses with ⟨hnow, hnowPasses⟩
  rcases hnow.exists_valid_of_passes hnowPasses with ⟨ss, hvalid⟩
  rcases of_replaced hround with ⟨hallows, st₀, a₁, hfind, hgenerate, hrefusal, e, he, rfl⟩
  have hs : s ∈ ss := mem_of_findMatch hvalid.meets hfind
  have hadded := (hadds y s st₀ (.ok r) a₁ st hreach hfind hgenerate).1.adds
  have hview := hadded.view hnow
  rcases Arena.counted_of_replace (hadded.arises hnow) he with
    ⟨_, _, doomed, hdoomed, _, hafter, hcount⟩
  -- What the match owns is the same before and after the generator's part.
  rcases hvalid.exists_owns hs with ⟨owned, howns⟩
  have hsame : doomed = owned := hdoomed.unique (hview.owns howns)
  subst hsame
  rcases Visits.singleton_iff.1 howns with ⟨_, others, _, rfl⟩
  rcases exists_kind_of_match hallows hfind hround with ⟨k, hk⟩
  refine ⟨k, others, hk, Arena.owned_eq_ok.2 howns, ?_, ?_⟩
  · rw [log_round_of_match hallows hfind hk,
      log_substitute_of_replace (hquiet y s st₀ hreach hfind) hgenerate hrefusal he, hcount]
    rfl
  · refine hvalid.loses hnow.linked hs howns fun t => ?_
    rw [hafter, View.erased_replaced, hview.erased]

/-- A round that fails reports that it gives up, or a match. -/
theorem log_round_of_failed (hquiet : rule.QuietFrom options x) {error : RewriteError} {a : Arena}
    {st : σ} (hreach : rule.Reaches options x y)
    (hround : rule.roundAt options y = .ok (.failed error a st)) :
    ∃ event, y.Closes event (.error error) ∧
      (rule.round options y.replacements y.arena y.state y.root).log = [⟨[], event⟩] := by
  rcases of_roundAt hround with ⟨found, st', hfind, ⟨_, hsettled⟩ | ⟨s, rfl, hcase⟩⟩
  · cases hsettled
  rcases hcase with ⟨limit, hlimit, hle, hfailed⟩ | ⟨hallows, hsubstitute⟩
  · -- At the bound the match itself is not reported.
    cases hfailed
    refine ⟨.notConverging s limit, rfl, ?_⟩
    rw [round, Logged.log_bind_of_ok hfind]
    simp only [hlimit, ge_iff_le, hle, if_true]
    rfl
  · rcases exists_kind_of_match hallows hfind hround with ⟨k, hk⟩
    refine ⟨.matched s k.name, ?_, ?_⟩
    · rcases of_substitute hsubstitute with ⟨_, _, _, _, ⟨_, _, hend⟩ |
        ⟨_, _, ⟨_, _, hend⟩ | ⟨_, _, _, hend⟩⟩⟩
      · cases hend
        exact ⟨k, hk, rfl⟩
      · cases hend
        exact ⟨k, hk, rfl⟩
      · cases hend
    · rw [log_round_of_match hallows hfind hk,
        log_substitute_of_failed (hquiet y s st' hreach hfind) hsubstitute]

/-! ## The events of a run -/

theorem Reaches.exists_performs (h : rule.Reaches options x y) (harises : x.arena.Arises)
    (hpasses : x.arena.Passes x.root) (hadds : rule.AddsReadersFrom options x)
    (hquiet : rule.QuietFrom options x) : ∃ swaps, rule.Performs options x swaps y := by
  induction h with
  | refl => exact ⟨[], .nothing⟩
  | tail hbefore hlast ih =>
      rcases ih with ⟨swaps, hswaps⟩
      rcases hlast with ⟨s, r, hround, hcount, hroot⟩
      rcases exists_swap hbefore harises hpasses hadds hquiet hround with
        ⟨k, others, hk, howned, _⟩
      exact ⟨_, hswaps.next hround hcount hroot hk howned⟩

namespace Performs

/-- All that a run erases on its way was live where it started. -/
theorem exists_loses (h : rule.Performs options x swaps y) (harises : x.arena.Arises)
    (hpasses : x.arena.Passes x.root) (hadds : rule.AddsReadersFrom options x)
    (hquiet : rule.QuietFrom options x) :
    ∃ gone, x.arena.view.Loses y.arena.view gone ∧
      gone.length = (swaps.map fun swap => swap.discarded + 1).sum := by
  induction h with
  | nothing => exact ⟨[], .of_erased_eq rfl, rfl⟩
  | @next y z swaps s r k others hbefore hround _ _ _ howned ih =>
      rcases ih with ⟨gone, hgone, hlength⟩
      rcases exists_swap hbefore.reaches harises hpasses hadds hquiet hround with
        ⟨_, others', _, howned', _, hloses⟩
      cases howned.symm.trans howned'
      refine ⟨gone ++ (s :: others), hgone.trans hloses, ?_⟩
      rw [List.length_append, hlength, List.map_append, List.sum_append]
      rfl

/-- What a run reports from `x` is what its replacements report and what it reports from where they
have led it. -/
theorem log_rounds (h : rule.Performs options x swaps y) (harises : x.arena.Arises)
    (hpasses : x.arena.Passes x.root) (hadds : rule.AddsReadersFrom options x)
    (hquiet : rule.QuietFrom options x) (budget : Nat) :
    (rule.rounds options (budget + swaps.length) x.replacements x.replacements x.arena x.state
        x.root).log = (swaps.flatMap Swap.events).map (Record.mk []) ++
      (rule.rounds options budget y.replacements y.replacements y.arena y.state y.root).log := by
  induction h generalizing budget with
  | nothing => rfl
  | @next y z swaps s r k others hbefore hround hcount hroot hk howned ih =>
      rcases exists_swap hbefore.reaches harises hpasses hadds hquiet hround with
        ⟨k', others', hk', howned', hlog, _⟩
      cases hk.symm.trans hk'
      cases howned.symm.trans howned'
      -- The traversal that the last replacement spends comes after those of the others.
      have hresult : (rule.round options y.replacements y.arena y.state y.root).result = _ := hround
      have hsplit : budget + (swaps ++ [Swap.mk s k.name r others.length]).length =
          budget + 1 + swaps.length := by
        rw [List.length_append, List.length_singleton]
        omega
      rw [hsplit, ih, rounds, Logged.log_bind_of_ok hresult, hlog, hcount, hroot,
        List.flatMap_append, List.flatMap_singleton, List.map_append, List.append_assoc]

end Performs

theorem Ends.exists_closes (h : rule.Ends options y out) (hquiet : rule.QuietFrom options x)
    (hreach : rule.Reaches options x y) (budget : Nat) :
    ∃ event, y.Closes event out.result ∧
      (rule.rounds options (budget + 1) y.replacements y.replacements y.arena y.state y.root).log =
        [⟨[], event⟩] := by
  cases h with
  | settled hround =>
      have hresult : (rule.round options y.replacements y.arena y.state y.root).result = _ := hround
      have hlog : (rule.round options y.replacements y.arena y.state y.root).log = [] := by
        rw [round, Logged.log_bind_of_ok (roundAt_eq_settled.1 hround)]
        rfl
      refine ⟨.fixedPoint y.replacements (y.replacements + 1), rfl, ?_⟩
      rw [rounds, Logged.log_bind_of_ok hresult, hlog]
      rfl
  | failed hround =>
      have hresult : (rule.round options y.replacements y.arena y.state y.root).result = _ := hround
      rcases log_round_of_failed hquiet hreach hround with ⟨event, hcloses, hlog⟩
      refine ⟨event, hcloses, ?_⟩
      rw [rounds, Logged.log_bind_of_ok hresult, hlog]
      rfl

/-- How a run ends erases nothing. -/
theorem Ends.loses (h : rule.Ends options y out) (hreach : rule.Reaches options x y)
    (hadds : rule.AddsReadersFrom options x) (harises : y.arena.Arises) :
    y.arena.view.Loses out.arena.view [] ∧
      y.arena.view.stmtCount ≤ out.arena.view.stmtCount := by
  cases h with
  | settled _ => exact ⟨.of_erased_eq rfl, Nat.le_refl _⟩
  | failed hround =>
      have hview := (hadds.of_fails hreach (of_failed hround)).adds.view harises
      exact ⟨.of_erased_eq hview.erased, hview.stmtCount_le⟩

/-- The span of a run is put around each record when the rounds are done. -/
theorem log_run {a : Arena} {st : σ} {root : Node} {events : List Event}
    (h : (rule.rounds options options.budget 0 0 a st root).log = events.map (Record.mk [])) :
    (rule.run options a st root).log = events.map (Record.mk [.rewriting root]) := by
  rw [run, Logged.within, h, List.map_map]
  rfl

/-- A run over a valid tree, with a generator that only adds readers and reports nothing, reports
its replacements in order, with three events for each, and then how it ended. All that it reports is
inside one span with the root that it started from. The statements that it has erased are as many as
its events say. -/
theorem run_reports {a : Arena} (h : a.Arises) {b : BlockId} (hpasses : a.Passes (.block b))
    {st : σ} (hadds : rule.AddsReadersFrom options (start a st (.block b)))
    (hquiet : rule.QuietFrom options (start a st (.block b)))
    (hrun : (rule.run options a st (.block b)).result = .ok out) :
    ∃ swaps last event, rule.Performs options (start a st (.block b)) swaps last ∧
      rule.Ends options last out ∧ last.replacements = swaps.length ∧
      last.Closes event out.result ∧
      (rule.run options a st (.block b)).log =
        (swaps.flatMap Swap.events ++ [event]).map (Record.mk [.rewriting (.block b)]) ∧
      (handles 0 out.arena.stmts.size).countP (fun t => out.arena.isErased t && !a.isErased t) =
        ((rule.run options a st (.block b)).log.map fun record => record.event.erasures).sum := by
  rcases run_eq_ok.1 hrun with ⟨last, hreach, hbudget, hends⟩
  rcases hreach.exists_performs h hpasses hadds hquiet with ⟨swaps, hswaps⟩
  have hcount : last.replacements = swaps.length := hswaps.replacements.trans (Nat.zero_add _)
  -- Each replacement has spent one traversal, and one more was left to end with.
  obtain ⟨left, hleft⟩ : ∃ left, options.budget = left + 1 + swaps.length :=
    ⟨options.budget - swaps.length - 1, by omega⟩
  rcases hends.exists_closes hquiet hreach left with ⟨event, hcloses, hlast⟩
  have hlog : (rule.run options a st (.block b)).log =
      (swaps.flatMap Swap.events ++ [event]).map (Record.mk [.rewriting (.block b)]) := by
    refine log_run ?_
    rw [hleft, List.map_append, List.map_singleton, ← hlast]
    exact hswaps.log_rounds h hpasses hadds hquiet (left + 1)
  refine ⟨swaps, last, event, hswaps, hends, hcount, hcloses, hlog, ?_⟩
  -- What is gone at the end had gone when the last round began.
  rcases hswaps.exists_loses h hpasses hadds hquiet with ⟨gone, hgone, hlength⟩
  have harises := (hreach.passes_of_addsReaders hadds h hpasses).1
  rcases hends.loses hreach hadds harises with ⟨hkept, hle⟩
  have hall : a.view.Loses out.arena.view gone := by
    have htrans := hgone.trans hkept
    rwa [List.append_nil] at htrans
  have hissued : ∀ t ∈ gone, t.index < out.arena.stmts.size := by
    intro t ht
    have herased : last.arena.view.erased t = true := by simp [hgone.erased, ht]
    exact Nat.lt_of_lt_of_le (harises.indexed.hasStmt_of_erased t herased) hle
  calc (handles 0 out.arena.stmts.size).countP (fun t => out.arena.isErased t && !a.isErased t)
      = gone.length := hall.countP_eq hissued
    _ = ((swaps.flatMap Swap.events).map Event.erasures).sum := by rw [hlength, sum_erasures]
    _ = ((rule.run options a st (.block b)).log.map fun record => record.event.erasures).sum := by
        rw [hlog]
        simp [Function.comp_def, hcloses.erasures]

/-! ## A loop whose body gives way first -/

theorem addsReadersFrom_constInTurn (options : RunOptions) (x : Position (List StmtId)) :
    constInTurn.AddsReadersFrom options x := by
  intro y s st answer a' st' _ _ hgenerate
  rcases of_generate_constInTurn hgenerate with ⟨n, hcreate, rfl⟩
  refine ⟨.create .start rfl (by simp [Kind.operands]) hcreate, fun m hm => .inl ?_⟩
  cases hm
  rw [(Arena.of_createStmt hcreate).1]
  exact Nat.lt_irrefl _

theorem quietFrom_constInTurn (options : RunOptions) (x : Position (List StmtId)) :
    constInTurn.QuietFrom options x := by
  intro y s st _ _
  simp only [constInTurn]
  cases y.arena.createStmt (.const (.int 0)) .i32 <;> rfl

/-- What the body of the loop held has given way, and then the loop. -/
def printedLoopReplaced : List Edit :=
  printedLoop ++
    [.createStmt (.const (.int 0)) .i32, .replace ⟨2⟩ ⟨4⟩,
      .createStmt (.const (.int 0)) .i32, .replace ⟨1⟩ ⟨5⟩]

/-- The first replacement goes with the loop, and at the bound another statement still matches. -/
theorem run_reports_loop_at_bound :
    ∃ out, (constInTurn.run ⟨some 2, 5⟩ (Arena.ofEdits printedLoop) [⟨2⟩, ⟨1⟩, ⟨0⟩]
        (.block ⟨0⟩)).result = .ok out ∧
      out.result = .error (.nonConvergent 2 ⟨0⟩) ∧
      (constInTurn.run ⟨some 2, 5⟩ (Arena.ofEdits printedLoop) [⟨2⟩, ⟨1⟩, ⟨0⟩] (.block ⟨0⟩)).log =
        [.matched ⟨2⟩ "const", .erased ⟨2⟩ 0, .replaced ⟨2⟩ ⟨4⟩, .matched ⟨1⟩ "while",
          .erased ⟨1⟩ 1, .replaced ⟨1⟩ ⟨5⟩, .notConverging ⟨0⟩ 2].map
            (Record.mk [.rewriting (.block ⟨0⟩)]) ∧
      (handles 0 out.arena.stmts.size).countP
        (fun t => out.arena.isErased t && !(Arena.ofEdits printedLoop).isErased t) = 3 := by
  have hvalidate : (Arena.ofEdits printedLoop).validate (.block ⟨0⟩) = .ok ⟨[], [], [], []⟩ := by
    decide +kernel
  have hrun : (constInTurn.run ⟨some 2, 5⟩ (Arena.ofEdits printedLoop) [⟨2⟩, ⟨1⟩, ⟨0⟩]
      (.block ⟨0⟩)).result =
      .ok ⟨.error (.nonConvergent 2 ⟨0⟩), Arena.ofEdits printedLoopReplaced, [⟨0⟩]⟩ := by
    decide +kernel
  have hlog : (constInTurn.run ⟨some 2, 5⟩ (Arena.ofEdits printedLoop) [⟨2⟩, ⟨1⟩, ⟨0⟩]
      (.block ⟨0⟩)).log =
        [.matched ⟨2⟩ "const", .erased ⟨2⟩ 0, .replaced ⟨2⟩ ⟨4⟩, .matched ⟨1⟩ "while",
          .erased ⟨1⟩ 1, .replaced ⟨1⟩ ⟨5⟩, .notConverging ⟨0⟩ 2].map
            (Record.mk [.rewriting (.block ⟨0⟩)]) := by
    decide +kernel
  rcases run_reports (Arena.arises_ofEdits printedLoop) ⟨_, hvalidate, rfl⟩
    (addsReadersFrom_constInTurn _ _) (quietFrom_constInTurn _ _) hrun with
    ⟨_, _, _, _, _, _, _, _, hcount⟩
  rw [hlog] at hcount
  exact ⟨_, hrun, rfl, hlog, hcount⟩

end Rule

end KernelIR
