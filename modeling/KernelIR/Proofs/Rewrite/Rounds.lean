import KernelIR.Proofs.Arena.Reach
import KernelIR.Rewrite.Run
import Mathlib.Logic.Relation

/-!
# The rounds of a run

A run starts a traversal at one position after another. Each round that replaces something leads to
the next position, and the run ends at the first position where a round does anything else. So what
a run answers is said of the positions that it reaches, and an invariant of a run is a property of
positions that a replacing round keeps.
-/

namespace KernelIR

/-- Where a traversal of a run starts. -/
structure Position (σ : Type) where
  replacements : Nat
  arena : Arena
  state : σ
  root : Node

namespace Rule

variable {σ : Type} (rule : Rule σ) (options : RunOptions)

/-- The round that starts at `x`. -/
def roundAt (x : Position σ) : Except Fault (Round σ) :=
  (rule.round options x.replacements x.arena x.state x.root).result

/-- The round at `x` replaces something, and the next one starts at `y`. -/
def Next (x y : Position σ) : Prop :=
  ∃ s replacement, rule.roundAt options x = .ok (.replaced s replacement y.arena y.state) ∧
    y.replacements = x.replacements + 1 ∧ y.root = x.root.follow s replacement

/-- A run that is at `x` comes to `y`. -/
def Reaches : Position σ → Position σ → Prop :=
  Relation.ReflTransGen (rule.Next options)

/-- A run that is at `x` makes some replacements, each noted as the match with what took its place,
and is then at `y`. -/
inductive Makes (x : Position σ) : List (StmtId × StmtId) → Position σ → Prop
  | nothing : Makes x [] x
  | next {y z : Position σ} {swaps : List (StmtId × StmtId)} {s replacement : StmtId} :
      Makes x swaps y →
        rule.roundAt options y = .ok (.replaced s replacement z.arena z.state) →
          z.replacements = y.replacements + 1 → z.root = y.root.follow s replacement →
            Makes x (swaps ++ [(s, replacement)]) z

/-- A run that comes to `x` ends there. -/
inductive Ends (x : Position σ) : Outcome σ RewriteError Summary → Prop
  | settled {st : σ} : rule.roundAt options x = .ok (.settled st) →
      Ends x ⟨.ok ⟨x.replacements, x.replacements + 1, x.root⟩, x.arena, st⟩
  | failed {error : RewriteError} {a : Arena} {st : σ} :
      rule.roundAt options x = .ok (.failed error a st) → Ends x ⟨.error error, a, st⟩

/-- How a round from `x` fails and leaves the arena `a`: at the bound, when it has only looked for a
match, or after the match because the generator fails, or because its replacement is refused. -/
def Fails (x : Position σ) (a : Arena) (st : σ) : RewriteError → Prop
  | .nonConvergent limit s =>
      options.maxRestarts = some limit ∧ limit ≤ x.replacements ∧ a = x.arena ∧
        (rule.findMatch x.arena x.root).run x.state = .ok (some s, st)
  | .generator s reason =>
      ∃ st', (rule.findMatch x.arena x.root).run x.state = .ok (some s, st') ∧
        ((rule.generate x.arena).run st').result = .ok ((.error reason, a), st)
  | .refused s r reason =>
      ∃ st', (rule.findMatch x.arena x.root).run x.state = .ok (some s, st') ∧
        ((rule.generate x.arena).run st').result = .ok ((.ok r, a), st) ∧
        a.refusal? s r = .ok (some reason)

variable {rule options} {x y : Position σ} {out : Outcome σ RewriteError Summary}

theorem Reaches.le (h : rule.Reaches options x y) : x.replacements ≤ y.replacements := by
  induction h with
  | refl => exact Nat.le_refl _
  | tail _ hnext ih =>
      rcases hnext with ⟨_, _, _, hcount, _⟩
      omega

/-- What holds where a run starts and is kept by its rounds holds wherever it comes to. -/
theorem Reaches.invariant {P : Position σ → Prop} (h : rule.Reaches options x y) (hx : P x)
    (hnext : ∀ z w, rule.Reaches options x z → P z → rule.Next options z w → P w) : P y := by
  induction h with
  | refl => exact hx
  | tail hbefore hlast ih => exact hnext _ _ hbefore ih hlast

theorem Makes.reaches {swaps : List (StmtId × StmtId)} (h : rule.Makes options x swaps y) :
    rule.Reaches options x y := by
  induction h with
  | nothing => exact .refl
  | next _ hround hcount hroot ih => exact ih.tail ⟨_, _, hround, hcount, hroot⟩

theorem Makes.replacements {swaps : List (StmtId × StmtId)} (h : rule.Makes options x swaps y) :
    y.replacements = x.replacements + swaps.length := by
  induction h with
  | nothing => rfl
  | next _ _ hcount _ ih =>
      rw [hcount, ih, List.length_append, List.length_singleton, Nat.add_assoc]

theorem Reaches.exists_makes (h : rule.Reaches options x y) :
    ∃ swaps, rule.Makes options x swaps y := by
  induction h with
  | refl => exact ⟨[], .nothing⟩
  | tail _ hlast ih =>
      rcases ih with ⟨swaps, hswaps⟩
      rcases hlast with ⟨_, _, hround, hcount, hroot⟩
      exact ⟨_, hswaps.next hround hcount hroot⟩

/-- From a position where a round replaces something there is only one way on. -/
theorem Reaches.cases_of_replaced (h : rule.Reaches options x y) {s replacement : StmtId}
    {a : Arena} {st : σ} (hround : rule.roundAt options x = .ok (.replaced s replacement a st)) :
    x = y ∨ rule.Reaches options ⟨x.replacements + 1, a, st, x.root.follow s replacement⟩ y := by
  rcases Relation.ReflTransGen.cases_head h with rfl | ⟨z, ⟨_, _, hround', hcount, hroot⟩, hrest⟩
  · exact .inl rfl
  · rw [hround] at hround'
    cases hround'
    rcases z with ⟨k, a, st, root⟩
    cases hcount
    cases hroot
    exact .inr hrest

/-- From a position where a run ends there is no way on. -/
theorem Reaches.eq_of_ends (h : rule.Reaches options x y) (hends : rule.Ends options x out) :
    x = y := by
  rcases Relation.ReflTransGen.cases_head h with rfl | ⟨z, ⟨_, _, hround', _, _⟩, _⟩
  · rfl
  · cases hends with
    | settled hround =>
        rw [hround] at hround'
        cases hround'
    | failed hround =>
        rw [hround] at hround'
        cases hround'

theorem Reaches.eq_of_settled (h : rule.Reaches options x y) {st : σ}
    (hround : rule.roundAt options x = .ok (.settled st)) : x = y :=
  h.eq_of_ends (.settled hround)

/-- A block stays the root of a run that started from it. -/
theorem Reaches.root_eq_block (h : rule.Reaches options x y) {b : BlockId}
    (hx : x.root = .block b) : y.root = .block b := by
  refine Reaches.invariant (P := fun z => z.root = .block b) h hx ?_
  rintro z w _ hz ⟨s, r, _, _, hroot⟩
  rw [hroot, hz]
  rfl

/-! ## What a round does -/

/-- After a match the generator fails, or its replacement is refused, or it takes the place of the
match. -/
theorem of_substitute {a : Arena} {st : σ} {s : StmtId} {round : Round σ}
    (h : (rule.substitute a st s).result = .ok round) :
    ∃ answer a₁ st₁, ((rule.generate a).run st).result = .ok ((answer, a₁), st₁) ∧
      ((∃ reason, answer = .error reason ∧ round = .failed (.generator s reason) a₁ st₁) ∨
        ∃ replacement, answer = .ok replacement ∧
          ((∃ reason, a₁.refusal? s replacement = .ok (some reason) ∧
              round = .failed (.refused s replacement reason) a₁ st₁) ∨
            (a₁.refusal? s replacement = .ok none ∧ ∃ e, a₁.replace s replacement = .ok e ∧
              round = .replaced s replacement e.arena st₁))) := by
  rw [substitute, Logged.result_bind_eq_ok] at h
  rcases h with ⟨⟨⟨answer, a₁⟩, st₁⟩, hgenerate, h⟩
  refine ⟨answer, a₁, st₁, hgenerate, ?_⟩
  cases answer with
  | error reason =>
      cases h
      exact .inl ⟨reason, rfl, rfl⟩
  | ok replacement =>
      simp only [Logged.result_bind_eq_ok, Logged.result_lift] at h
      rcases h with ⟨refusal, hrefusal, h⟩
      refine .inr ⟨replacement, rfl, ?_⟩
      cases refusal with
      | some reason =>
          cases h
          exact .inl ⟨reason, hrefusal, rfl⟩
      | none =>
          simp only [Logged.result_bind_eq_ok, Edit.apply, Logged.result_lift] at h
          rcases h with ⟨_, ⟨e, he, _, _, hdone⟩, _, _, h⟩
          cases hdone
          cases h
          exact .inr ⟨hrefusal, e, he, rfl⟩

/-- A round finds nothing, or gives up at a match because of the bound, or goes on from the
match. -/
theorem of_roundAt {round : Round σ} (h : rule.roundAt options x = .ok round) :
    ∃ found st, (rule.findMatch x.arena x.root).run x.state = .ok (found, st) ∧
      ((found = none ∧ round = .settled st) ∨
        ∃ s, found = some s ∧
          ((∃ limit, options.maxRestarts = some limit ∧ limit ≤ x.replacements ∧
              round = .failed (.nonConvergent limit s) x.arena st) ∨
            ((∀ limit, options.maxRestarts = some limit → x.replacements < limit) ∧
              (rule.substitute x.arena st s).result = .ok round))) := by
  rw [roundAt, Rule.round, Logged.result_bind_eq_ok] at h
  rcases h with ⟨⟨found, st⟩, hfind, h⟩
  refine ⟨found, st, hfind, ?_⟩
  cases found with
  | none =>
      cases h
      exact .inl ⟨rfl, rfl⟩
  | some s =>
      refine .inr ⟨s, rfl, ?_⟩
      cases hbound : options.maxRestarts with
      | none =>
          simp only [hbound, Logged.result_bind_eq_ok] at h
          rcases h with ⟨_, _, h⟩
          exact .inr ⟨by simp, h⟩
      | some limit =>
          by_cases hlimit : x.replacements ≥ limit
          · simp only [hbound, hlimit, if_true] at h
            cases h
            exact .inl ⟨limit, rfl, hlimit, rfl⟩
          · simp only [hbound, hlimit, if_false, Logged.result_bind_eq_ok] at h
            rcases h with ⟨_, _, h⟩
            refine .inr ⟨?_, h⟩
            intro limit' hlimit'
            cases hlimit'
            omega

/-- A round that replaces something has matched it and is below the bound. -/
theorem of_replaced {s replacement : StmtId} {a : Arena} {st : σ}
    (h : rule.roundAt options x = .ok (.replaced s replacement a st)) :
    (∀ limit, options.maxRestarts = some limit → x.replacements < limit) ∧
      ∃ st₀ a₁, (rule.findMatch x.arena x.root).run x.state = .ok (some s, st₀) ∧
        ((rule.generate x.arena).run st₀).result = .ok ((.ok replacement, a₁), st) ∧
        a₁.refusal? s replacement = .ok none ∧
        ∃ e, a₁.replace s replacement = .ok e ∧ e.arena = a := by
  rcases of_roundAt h with ⟨found, st₀, hfind, ⟨_, hround⟩ | ⟨s', rfl, hcase⟩⟩
  · cases hround
  · rcases hcase with ⟨_, _, _, hround⟩ | ⟨hbound, hsubstitute⟩
    · cases hround
    · rcases of_substitute hsubstitute with ⟨answer, a₁, st₁, hgenerate, ⟨_, _, hround⟩ |
        ⟨replacement', rfl, ⟨_, _, hround⟩ | ⟨hrefusal, e, he, hround⟩⟩⟩
      · cases hround
      · cases hround
      · cases hround
        exact ⟨hbound, st₀, a₁, hfind, hgenerate, hrefusal, e, he, rfl⟩

/-- A round settles exactly if its traversal finds nothing. -/
theorem roundAt_eq_settled {st : σ} : rule.roundAt options x = .ok (.settled st) ↔
    (rule.findMatch x.arena x.root).run x.state = .ok (none, st) := by
  constructor
  · intro hround
    rcases of_roundAt hround with ⟨found, st', hfind, ⟨rfl, hsettled⟩ | ⟨s, _, hcase⟩⟩
    · cases hsettled
      exact hfind
    · rcases hcase with ⟨_, _, _, hfailed⟩ | ⟨_, hsubstitute⟩
      · cases hfailed
      · rcases of_substitute hsubstitute with ⟨_, _, _, _, ⟨_, _, hend⟩ |
          ⟨_, _, ⟨_, _, hend⟩ | ⟨_, _, _, hend⟩⟩⟩ <;> cases hend
  · intro hfind
    rw [roundAt, Rule.round, Logged.bind_of_ok hfind]
    rfl

theorem of_failed {error : RewriteError} {a : Arena} {st : σ}
    (hround : rule.roundAt options x = .ok (.failed error a st)) :
    rule.Fails options x a st error := by
  rcases of_roundAt hround with ⟨found, st', hfind, ⟨_, hsettled⟩ | ⟨s, rfl, hcase⟩⟩
  · cases hsettled
  · rcases hcase with ⟨limit, hbound, hlimit, hfailed⟩ | ⟨_, hsubstitute⟩
    · cases hfailed
      exact ⟨hbound, hlimit, rfl, hfind⟩
    · rcases of_substitute hsubstitute with ⟨answer, _, _, hgenerate, ⟨reason, rfl, hend⟩ |
        ⟨r, rfl, ⟨reason, hrefusal, hend⟩ | ⟨_, _, _, hend⟩⟩⟩
      · cases hend
        exact ⟨st', hfind, hgenerate⟩
      · cases hend
        exact ⟨st', hfind, hgenerate, hrefusal⟩
      · cases hend

/-- A round that fails has matched the statement that its error names. -/
theorem Fails.finds {error : RewriteError} {a : Arena} {st : σ}
    (h : rule.Fails options x a st error) :
    ∃ st', (rule.findMatch x.arena x.root).run x.state = .ok (some error.stmt, st') := by
  cases error with
  | nonConvergent limit s => exact ⟨st, h.2.2.2⟩
  | generator s reason =>
      rcases h with ⟨st', hfind, _⟩
      exact ⟨st', hfind⟩
  | refused s r reason =>
      rcases h with ⟨st', hfind, _⟩
      exact ⟨st', hfind⟩

/-- A round that gives up is at the bound, and has done nothing but look for a match. -/
theorem of_nonConvergent {limit : Nat} {s : StmtId} {a : Arena} {st : σ}
    (hround : rule.roundAt options x = .ok (.failed (.nonConvergent limit s) a st)) :
    options.maxRestarts = some limit ∧ limit ≤ x.replacements ∧ a = x.arena ∧
      (rule.findMatch x.arena x.root).run x.state = .ok (some s, st) :=
  of_failed hround

/-- A round that fails because of a refusal has left the arena as the generator left it. -/
theorem of_refused {s r : StmtId} {reason : Refusal} {a : Arena} {st : σ}
    (hround : rule.roundAt options x = .ok (.failed (.refused s r reason) a st)) :
    ∃ st', (rule.findMatch x.arena x.root).run x.state = .ok (some s, st') ∧
      ((rule.generate x.arena).run st').result = .ok ((.ok r, a), st) ∧
      a.refusal? s r = .ok (some reason) :=
  of_failed hround

/-! ## What a run does -/

theorem rounds_of_ends (h : rule.Ends options x out) (budget : Nat) :
    (rule.rounds options (budget + 1) x.replacements x.replacements x.arena x.state x.root).result =
      .ok out := by
  cases h with
  | settled hround =>
      have hround' : (rule.round options x.replacements x.arena x.state x.root).result = _ := hround
      rw [rounds, Logged.bind_of_ok hround']
      rfl
  | failed hround =>
      have hround' : (rule.round options x.replacements x.arena x.state x.root).result = _ := hround
      rw [rounds, Logged.bind_of_ok hround']
      rfl

/-- A fault of a round is a fault of the run. -/
theorem rounds_of_fault {fault : Fault} (h : rule.roundAt options x = .error fault)
    (budget : Nat) :
    (rule.rounds options (budget + 1) x.replacements x.replacements x.arena x.state x.root).result =
      .error fault := by
  have hround : (rule.round options x.replacements x.arena x.state x.root).result = _ := h
  rw [rounds, Logged.bind_of_error hround]

theorem rounds_of_next (h : rule.Next options x y) (budget : Nat) :
    (rule.rounds options (budget + 1) x.replacements x.replacements x.arena x.state x.root).result =
      (rule.rounds options budget y.replacements y.replacements y.arena y.state y.root).result := by
  rcases h with ⟨s, replacement, hround, hcount, hroot⟩
  have hround' : (rule.round options x.replacements x.arena x.state x.root).result = _ := hround
  rw [rounds, Logged.bind_of_ok hround', hcount, hroot]

theorem exists_ends_of_rounds {budget : Nat}
    (h : (rule.rounds options budget x.replacements x.replacements x.arena x.state x.root).result =
      .ok out) :
    ∃ y, rule.Reaches options x y ∧ y.replacements < x.replacements + budget ∧
      rule.Ends options y out := by
  -- Each round with a replacement spends one traversal of the budget.
  induction budget generalizing x with
  | zero => cases h
  | succ budget ih =>
      have hopen := h
      rw [rounds, Logged.result_bind_eq_ok] at hopen
      rcases hopen with ⟨round, hround, hrest⟩
      cases round with
      | settled st =>
          cases hrest
          exact ⟨x, .refl, by omega, .settled hround⟩
      | failed error a st =>
          cases hrest
          exact ⟨x, .refl, by omega, .failed hround⟩
      | replaced s replacement a st =>
          have hnext : rule.Next options x
              ⟨x.replacements + 1, a, st, x.root.follow s replacement⟩ :=
            ⟨s, replacement, hround, rfl, rfl⟩
          rw [rounds_of_next hnext] at h
          rcases ih h with ⟨y, hreach, hcount, hends⟩
          refine ⟨y, .head hnext hreach, ?_, hends⟩
          simp only at hcount
          omega

/-- From where a run has come to it goes on as if it had started there, with what is left of its
budget. -/
theorem rounds_eq_of_reaches (h : rule.Reaches options x y) (budget : Nat) :
    (rule.rounds options (budget + (y.replacements - x.replacements)) x.replacements
        x.replacements x.arena x.state x.root).result =
      (rule.rounds options budget y.replacements y.replacements y.arena y.state y.root).result := by
  induction h generalizing budget with
  | refl => simp
  | @tail z w hbefore hlast ih =>
      have hcount : w.replacements = z.replacements + 1 := by
        rcases hlast with ⟨_, _, _, hcount, _⟩
        exact hcount
      have hsplit : budget + (w.replacements - x.replacements) =
          budget + 1 + (z.replacements - x.replacements) := by
        have hle := Reaches.le hbefore
        omega
      rw [hsplit, ih, rounds_of_next hlast]

theorem rounds_of_reaches {budget : Nat} (h : rule.Reaches options x y)
    (hcount : y.replacements < x.replacements + budget) (hends : rule.Ends options y out) :
    (rule.rounds options budget x.replacements x.replacements x.arena x.state x.root).result =
      .ok out := by
  have hle := Reaches.le h
  obtain ⟨left, rfl⟩ : ∃ left, budget = left + 1 + (y.replacements - x.replacements) :=
    ⟨budget - (y.replacements - x.replacements) - 1, by omega⟩
  rw [rounds_eq_of_reaches h, rounds_of_ends hends]

/-- What a run answers is what it ends with at the last position that it reaches, provided that its
budget lasts. -/
theorem rounds_eq_ok {budget : Nat} :
    (rule.rounds options budget x.replacements x.replacements x.arena x.state x.root).result =
        .ok out ↔
      ∃ y, rule.Reaches options x y ∧ y.replacements < x.replacements + budget ∧
        rule.Ends options y out := by
  constructor
  · exact exists_ends_of_rounds
  · rintro ⟨y, hreach, hcount, hends⟩
    exact rounds_of_reaches hreach hcount hends

/-- A run never makes more replacements than its bound. -/
theorem Reaches.le_limit (h : rule.Reaches options x y) {limit : Nat}
    (hlimit : options.maxRestarts = some limit) (hx : x.replacements ≤ limit) :
    y.replacements ≤ limit := by
  refine Reaches.invariant (P := fun z => z.replacements ≤ limit) h hx ?_
  rintro z w _ _ ⟨s, replacement, hround, hcount, _⟩
  have hbelow := (of_replaced hround).1 limit hlimit
  omega

/-- The position where a run starts. -/
def start (a : Arena) (st : σ) (root : Node) : Position σ := ⟨0, a, st, root⟩

theorem run_eq_ok {a : Arena} {st : σ} {root : Node} :
    (rule.run options a st root).result = .ok out ↔
      ∃ y, rule.Reaches options (start a st root) y ∧ y.replacements < options.budget ∧
        rule.Ends options y out := by
  have h : (rule.run options a st root).result = .ok out ↔ _ := rounds_eq_ok (x := start a st root)
  simpa [start] using h

end Rule

end KernelIR
