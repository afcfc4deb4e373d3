import KernelIR.Proofs.Arena.Exactness
import KernelIR.Proofs.Rewrite.Additions
import KernelIR.Proofs.Rewrite.Rounds
import KernelIR.Proofs.Tree.Exchanging
import KernelIR.Proofs.Tree.Scan
import KernelIR.Proofs.Tree.Valid

/-!
# Runs from a statement

A run that starts from a statement stays with it. What it replaces is below the statement, or is the
statement itself, and then the run goes on from what took its place, where it stood. Outside only
the readers notice: slots that read something replaced read what it gave way to in the end. And the
test is not even asked about anything outside.
-/

namespace KernelIR

namespace View

/-- What `x` has given way to after some replacements in order. -/
def turnAll (swaps : List (StmtId × StmtId)) (x : StmtId) : StmtId :=
  swaps.foldl (fun y swap => turn swap.1 swap.2 y) x

theorem turnAll_concat (swaps : List (StmtId × StmtId)) (s n x : StmtId) :
    turnAll (swaps ++ [(s, n)]) x = turn s n (turnAll swaps x) := by
  rw [turnAll, List.foldl_append]
  rfl

/-- What was not replaced has not given way to anything. -/
theorem turnAll_of_not_mem {swaps : List (StmtId × StmtId)} {x : StmtId}
    (h : x ∉ swaps.map Prod.fst) : turnAll swaps x = x := by
  induction swaps with
  | nil => rfl
  | cons swap swaps ih =>
      rw [List.map_cons, List.mem_cons, not_or] at h
      rw [turnAll, List.foldl_cons, turn_of_ne h.1]
      exact ih h.2

/-! ## Changes inside a statement -/

/-- The view `w` is `v` with changes in and below the statement `r` of the block `b`, below which
were `rs`. Where `r` stood is `f r`, and what is outside reads `f x` where it read `x`. -/
structure ChangedInside (v w : View) (b : BlockId) (r : StmtId) (rs : List StmtId)
    (f : StmtId → StmtId) : Prop where
  parent?_place : w.parent? (f r) = some b
  listed_place : w.listed b = (v.listed b).set ((v.listed b).idxOf r) (f r)
  listed : ∀ c, c ≠ b → ¬ v.Enters (.stmt r) c → w.listed c = v.listed c
  owner? : w.owner? = v.owner?
  erased : ∀ t, v.HasStmt t → t ∉ rs → w.erased t = v.erased t
  parent? : ∀ t, v.HasStmt t → t ∉ rs → w.parent? t = v.parent? t
  type? : ∀ t, v.HasStmt t → w.type? t = v.type? t
  kind?_live : ∀ t, v.HasStmt t → t ∉ rs → v.erased t = false →
    w.kind? t = (v.kind? t).map (Kind.mapSlots fun _ => f)
  kind?_erased : ∀ t, v.HasStmt t → t ∉ rs → v.erased t = true → w.kind? t = v.kind? t

/-- In `w`, which is `v` with changes inside `r`, the descent from what stands there meets `cur`,
all of which was below `r` or is new, is live, owns its blocks and has them below `r`. -/
structure Confined (v w : View) (b : BlockId) (r : StmtId) (rs cur : List StmtId)
    (f : StmtId → StmtId) : Prop where
  changed : v.ChangedInside w b r rs f
  hasStmt : ∀ t, v.HasStmt t → w.HasStmt t
  meets : w.MeetsFrom (.stmt (f r)) cur
  once : cur.Nodup
  inside : ∀ t ∈ cur, t ∈ rs ∨ ¬ v.HasStmt t
  live : ∀ t ∈ cur, w.erased t = false
  owns : ∀ t ∈ cur, ∀ c ∈ w.children t, w.owner? c = some t
  below : ∀ t ∈ cur, ∀ c ∈ w.children t, v.Enters (.stmt r) c

variable {v w w' : View} {b : BlockId} {r s n : StmtId} {rs cur doomed : List StmtId}
  {f : StmtId → StmtId}

/-! ## New statements change nothing -/

theorem ChangedInside.adds (h : v.ChangedInside w b r rs f)
    (hasStmt : ∀ t, v.HasStmt t → w.HasStmt t) (hadds : w.Adds w') :
    v.ChangedInside w' b r rs f where
  parent?_place := by rw [hadds.parent?, h.parent?_place]
  listed_place := by rw [hadds.listed, h.listed_place]
  listed c hc hout := by rw [hadds.listed, h.listed c hc hout]
  owner? := by rw [hadds.owner?, h.owner?]
  erased t ht hout := by rw [hadds.erased, h.erased t ht hout]
  parent? t ht hout := by rw [hadds.parent?, h.parent? t ht hout]
  type? t ht := by rw [hadds.type? t (hasStmt t ht), h.type? t ht]
  kind?_live t ht hout hlive := by rw [hadds.kind? t (hasStmt t ht), h.kind?_live t ht hout hlive]
  kind?_erased t ht hout hdead := by
    rw [hadds.kind? t (hasStmt t ht), h.kind?_erased t ht hout hdead]

theorem Confined.adds (h : v.Confined w b r rs cur f) (hadds : w.Adds w') :
    v.Confined w' b r rs cur f where
  changed := h.changed.adds h.hasStmt hadds
  hasStmt t ht := hadds.hasStmt (h.hasStmt t ht)
  meets := hadds.meetsFrom h.meets
  once := h.once
  inside := h.inside
  live t ht := by rw [hadds.erased, h.live t ht]
  owns t ht c hc := by
    rw [hadds.children] at hc
    rw [hadds.owner?, h.owns t ht c hc]
  below t ht c hc := by
    rw [hadds.children] at hc
    exact h.below t ht c hc

/-! ## A replacement inside the statement -/

/-- What is below `r` now is in a block that was below `r`, but for what stands where `r` stood. -/
theorem Confined.place (h : v.Confined w b r rs cur f) (hlinked : w.Linked) (hs : s ∈ cur) :
    s = f r ∨ ∃ c, w.parent? s = some c ∧ v.Enters (.stmt r) c := by
  rcases Visits.mem_cases h.meets.2 hs with htop | ⟨p, hp, hbelow⟩
  · exact .inl (List.mem_singleton.1 htop)
  · rcases mem_below.1 hbelow with ⟨c, hc, hlisted⟩
    exact .inr ⟨c, (hlinked.parent_iff s (h.live s hs) c).2 hlisted, h.below p hp c hc⟩

/-- What replaces the statement that was put at an index stands at that index. -/
theorem ReplacedIn.listed_set (h : w.ReplacedIn w' s n doomed) (hlinked : w.Linked)
    (hp : w.parent? s = some b) {xs : List StmtId} {i : Nat} (hi : i < xs.length)
    (hlisted : w.listed b = xs.set i s) : w'.listed b = xs.set i n := by
  have hindex : i < (w.listed b).length := by rwa [hlisted, List.length_set]
  have hat : (w.listed b)[i] = s := by simp [hlisted]
  have hsame : (w.listed b).idxOf s = i := by
    rw [← hat]
    exact (hlinked.nodup_listed b).idxOf_getElem i hindex
  calc
    w'.listed b = (w.listed b).set ((w.listed b).idxOf s) n := (h.listed_place b hp).2
    _ = (xs.set i s).set i n := by rw [hsame, hlisted]
    _ = xs.set i n := List.set_set s

/-- Outside `r` a replacement inside it does what the new name says, and nothing else. -/
theorem ChangedInside.replaced (h : v.ChangedInside w b r rs f) (hlinked : v.Linked)
    (hlinked' : w.Linked) (hr : v.parent? r = some b) (hapart : ¬ v.Enters (.stmt r) b)
    (hplace : s = f r ∨ ∃ c, w.parent? s = some c ∧ v.Enters (.stmt r) c)
    (hfresh : ¬ v.HasStmt n) (hstays : ∀ t, v.HasStmt t → t ∉ rs → t ∉ doomed)
    (hlast : f r ≠ s → f r ∉ doomed) (hlastNew : f r ≠ n) (hin : w.ReplacedIn w' s n doomed) :
    v.ChangedInside w' b r rs fun x => turn s n (f x) := by
  have hold : ∀ t, v.HasStmt t → t ≠ n := by
    rintro t ht rfl
    exact hfresh ht
  -- The match is in `b` only if it is what stands where `r` stood.
  have hinner : s ≠ f r → w.parent? s ≠ some b := by
    intro hne hp
    rcases hplace with heq | ⟨c, hc, henters⟩
    · exact hne heq
    · rw [hp] at hc
      cases hc
      exact hapart henters
  refine
    { parent?_place := ?_
      listed_place := ?_
      listed := ?_
      owner? := hin.owner?.trans h.owner?
      erased := ?_
      parent? := ?_
      type? := ?_
      kind?_live := ?_
      kind?_erased := ?_ }
  · show w'.parent? (turn s n (f r)) = some b
    by_cases hs : f r = s
    · rw [hs, turn_self, hin.parent?_new, ← hs, h.parent?_place]
    · rw [turn_of_ne hs, hin.parent? _ (hlast hs) hlastNew, h.parent?_place]
  · show w'.listed b = (v.listed b).set ((v.listed b).idxOf r) (turn s n (f r))
    by_cases hs : f r = s
    · have hindex := List.idxOf_lt_length_iff.2 (hlinked.listed_of_parent hr)
      rw [hs, turn_self]
      exact hin.listed_set hlinked' (hs ▸ h.parent?_place) hindex (hs ▸ h.listed_place)
    · rw [hin.listed b (hinner (Ne.symm hs)), h.listed_place, turn_of_ne hs]
  · intro c hc hout
    refine (hin.listed c ?_).trans (h.listed c hc hout)
    intro hp
    rcases hplace with rfl | ⟨d, hd, henters⟩
    · rw [h.parent?_place] at hp
      cases hp
      exact hc rfl
    · rw [hp] at hd
      cases hd
      exact hout henters
  · intro t ht hout
    rw [← h.erased t ht hout, Bool.eq_iff_iff, hin.erased]
    exact or_iff_right (hstays t ht hout)
  · intro t ht hout
    rw [hin.parent? t (hstays t ht hout) (hold t ht), h.parent? t ht hout]
  · intro t ht
    rw [hin.type?, h.type? t ht]
  · intro t ht hout hlive
    have hlive' : w.erased t = false := (h.erased t ht hout).trans hlive
    rw [hin.kind?_live t hlive', h.kind?_live t ht hout hlive, Option.map_map]
    refine congrArg (fun g => (v.kind? t).map g) (funext fun k => ?_)
    exact Kind.mapSlots_mapSlots (fun _ => f) (fun _ => turn s n) k
  · intro t ht hout hdead
    have hdead' : w.erased t = true := (h.erased t ht hout).trans hdead
    rw [hin.kind?_erased t hdead', h.kind?_erased t ht hout hdead]

/-- A new statement without blocks replaces something below `r`, or what stands where `r` stood. -/
theorem Confined.replaced (h : v.Confined w b r rs cur f) (hlinked : v.Linked) (hlinked' : w.Linked)
    (hr : v.parent? r = some b) (hapart : ¬ v.Enters (.stmt r) b) (hs : s ∈ cur) (hne : s ≠ n)
    (hnew : w.Placeable n) (hfresh : ¬ v.HasStmt n) (hholds : w.children n = [])
    (howns : w.Owns s doomed) :
    ∃ cur', v.Confined (w.replaced s n doomed) b r rs cur' fun x => turn s n (f x) := by
  have hplace := h.place hlinked' hs
  have hleaf : w.Meets [n] [n] := by
    refine Visits.singleton_of_below ⟨hnew.hasStmt, hlinked'.hasBlock_of_child n⟩ ?_
    rw [View.below, hholds, List.flatMap_nil]
  have hlastNew : f r ≠ n := by
    intro heq
    have hp := h.changed.parent?_place
    rw [heq, hnew.detached] at hp
    cases hp
  have hnotNew : n ∉ cur := by
    intro hmem
    rcases h.meets.cases_of_mem hmem with heq | ⟨c, _, hlisted⟩
    · cases heq
      exact hlastNew rfl
    · exact hlinked'.not_listed hnew c hlisted
  rcases hlinked'.meetsFrom_replaced (h.live s hs) h.meets h.once hs hleaf
    (by simpa using hne) doomed with ⟨front, segment, back, rfl, hsegment, hafter⟩
  have hdoomed : doomed ⊆ segment := howns.subset hsegment
  have hsegmentIn : ∀ t ∈ segment, t ∈ front ++ (segment ++ back) := fun t ht =>
    List.mem_append_right _ (List.mem_append_left _ ht)
  -- What is met afterwards is new or was met before, outside what goes.
  have hcases : ∀ t ∈ front ++ ([n] ++ back), t = n ∨
      (t ∈ front ++ (segment ++ back) ∧ t ∉ doomed) := by
    intro t ht
    by_cases htn : t = n
    · exact .inl htn
    · have haround : t ∈ front ++ back := by simpa [htn] using ht
      exact .inr ⟨mem_of_mem_around haround, fun hmem =>
        not_mem_of_mem_around h.once haround (hdoomed hmem)⟩
  have hstays : ∀ t, v.HasStmt t → t ∉ rs → t ∉ doomed := by
    intro t ht hout hmem
    rcases h.inside t (hsegmentIn t (hdoomed hmem)) with hmem | hnot
    · exact hout hmem
    · exact hnot ht
  have hlast : f r ≠ s → f r ∉ doomed := fun hne hmem =>
    Visits.not_mem_segment h.meets.2 hs hne.symm hsegment (hdoomed hmem)
  have hchanged := h.changed.replaced hlinked hlinked' hr hapart hplace hfresh hstays hlast
    hlastNew (replacedIn_replaced hlinked' hne hnew howns)
  refine ⟨front ++ ([n] ++ back), ?_⟩
  refine
    { changed := hchanged
      hasStmt := fun t ht => hasStmt_replaced.2 (h.hasStmt t ht)
      meets := ?_
      once := ?_
      inside := ?_
      live := ?_
      owns := ?_
      below := ?_ }
  · rwa [follow_stmt] at hafter
  · have hrest : (front ++ back).Sublist (front ++ (segment ++ back)) :=
      (List.Sublist.refl front).append (List.sublist_append_right segment back)
    have hnot : n ∉ front ++ back := fun hmem => hnotNew (mem_of_mem_around hmem)
    exact List.perm_middle.nodup_iff.2 (List.nodup_cons.2 ⟨hnot, h.once.sublist hrest⟩)
  · intro t ht
    rcases hcases t ht with rfl | ⟨hmem, _⟩
    · exact .inr hfresh
    · exact h.inside t hmem
  · intro t ht
    rw [live_replaced]
    rcases hcases t ht with rfl | ⟨hmem, hout⟩
    · exact ⟨fun hmem => hnotNew (hsegmentIn t (hdoomed hmem)), hnew.live⟩
    · exact ⟨hout, h.live t hmem⟩
  · intro t ht c hc
    rw [children_replaced] at hc
    rw [owner_replaced]
    rcases hcases t ht with rfl | ⟨hmem, _⟩
    · rw [hholds] at hc
      cases hc
    · exact h.owns t hmem c hc
  · intro t ht c hc
    rw [children_replaced] at hc
    rcases hcases t ht with rfl | ⟨hmem, _⟩
    · rw [hholds] at hc
      cases hc
    · exact h.below t hmem c hc

/-- To begin with, everything below `r` is in order. -/
theorem Valid.confined {root : Node} {ss : List StmtId} (h : v.Valid root ss) (hlinked : v.Linked)
    (hr : r ∈ ss) (hp : v.parent? r = some b) :
    ∃ rs, v.MeetsFrom (.stmt r) rs ∧ v.Confined v b r rs rs fun x => x := by
  rcases h.meets.exists_meetsFrom_stmt (h.nodup hlinked) hr with ⟨rs, hrs, honce⟩
  have htree : rs ⊆ ss := hrs.2.subset_of_roots_subset h.meets.2 (by simpa [tops] using hr)
  refine ⟨rs, hrs, ?_⟩
  refine
    { changed := ?_
      hasStmt := fun _ ht => ht
      meets := hrs
      once := honce
      inside := fun t ht => .inl ht
      live := fun t ht => h.live t (htree ht)
      owns := fun t ht => h.owns t (htree ht)
      below := ?_ }
  · refine
      { parent?_place := hp
        listed_place := ?_
        listed := fun _ _ _ => rfl
        owner? := rfl
        erased := fun _ _ _ => rfl
        parent? := fun _ _ _ => rfl
        type? := fun _ _ => rfl
        kind?_live := ?_
        kind?_erased := fun _ _ _ _ => rfl }
    · have hindex := List.idxOf_lt_length_iff.2 (hlinked.listed_of_parent hp)
      have hsame := List.set_getElem_self hindex
      rw [List.getElem_idxOf hindex] at hsame
      exact hsame.symm
    · intro t _ _ _
      have hid : (Kind.mapSlots fun _ => fun x : StmtId => x) = id :=
        funext fun k => Kind.mapSlots_id k
      rw [hid, Option.map_id_apply]
  · intro t ht c hc
    rcases hrs.cases_of_mem ht with heq | ⟨d, hd, hlisted⟩
    · exact .child heq hc
    · exact hd.inside hlisted hc

end View

namespace Rule

open View (turnAll)

variable {σ : Type} {rule other : Rule σ} {options : RunOptions} {x y : Position σ}
  {swaps : List (StmtId × StmtId)} {b : BlockId} {r : StmtId} {rs : List StmtId}

/-- Wherever a run from `x` comes to a match and the generator answers with a replacement, it has
made that, and perhaps other statements, none of which holds blocks, and nothing else. -/
def AnswersNew (rule : Rule σ) (options : RunOptions) (x : Position σ) : Prop :=
  ∀ y s st n a' st', rule.Reaches options x y →
    (rule.findMatch y.arena y.root).run y.state = .ok (some s, st) →
      ((rule.generate y.arena).run st).result = .ok ((.ok n, a'), st') →
        y.arena.Adds a' ∧ ¬ y.arena.view.HasStmt n

/-- Every replacement on the way of a run from `r` is made inside `r`. -/
theorem Makes.confined (h : rule.Makes options x swaps y) (hnew : rule.AnswersNew options x)
    (harises : x.arena.Arises) (hroot : x.root = .stmt r) (hp : x.arena.view.parent? r = some b)
    (hrs : x.arena.view.Confined x.arena.view b r rs rs fun x => x) :
    y.arena.Arises ∧ y.root = .stmt (turnAll swaps r) ∧
      ∃ cur, x.arena.view.Confined y.arena.view b r rs cur (turnAll swaps) := by
  have hapart : ¬ x.arena.view.Enters (.stmt r) b :=
    hrs.meets.not_enters (harises.linked.listed_of_parent hp)
  induction h with
  | nothing => exact ⟨harises, hroot, rs, hrs⟩
  | @next y z swaps s n hbefore hround hcount hfollow ih =>
      rcases ih with ⟨hnow, hnowRoot, cur, hcur⟩
      rcases of_replaced hround with ⟨_, st, a', hfind, hgenerate, _, e, hreplace, hlast⟩
      have hs : s ∈ cur := mem_of_findMatch (hnowRoot ▸ hcur.meets) hfind
      rcases hnew y s st n a' z.state hbefore.reaches hfind hgenerate with ⟨hadds, hfresh⟩
      have hadded := hadds.arises hnow
      have hview := hadds.view hnow
      rcases Arena.replaced_of_replace hadded hreplace with
        ⟨hne, hplaceable, doomed, howns, _, hafter⟩
      have hholds : a'.view.children n = [] := by
        rw [hview.children, hnow.indexed.children_of_not_hasStmt hfresh]
      have hfreshStart : ¬ x.arena.view.HasStmt n := fun hn => hfresh (hcur.hasStmt n hn)
      rcases (hcur.adds hview).replaced harises.linked hadded.linked hp hapart hs hne hplaceable
        hfreshStart hholds howns with ⟨cur', hcur'⟩
      have hturn : turnAll (swaps ++ [(s, n)]) = fun x => View.turn s n (turnAll swaps x) :=
        funext fun x => View.turnAll_concat swaps s n x
      rw [← hlast, hturn, hafter]
      refine ⟨hadded.replaced hreplace, ?_, cur', hcur'⟩
      rw [hfollow, hnowRoot, View.follow_stmt]

/-- Rules with the same generator make the same run if their traversals find the same wherever the
run of one of them comes to. -/
theorem rounds_congr (hgenerate : other.generate = rule.generate)
    (hfind : ∀ y, rule.Reaches options x y →
      other.findMatch y.arena y.root = rule.findMatch y.arena y.root)
    (budget traversals : Nat) :
    other.rounds options budget x.replacements traversals x.arena x.state x.root =
      rule.rounds options budget x.replacements traversals x.arena x.state x.root := by
  induction budget generalizing x traversals with
  | zero => rfl
  | succ budget ih =>
      have hround : other.round options x.replacements x.arena x.state x.root =
          rule.round options x.replacements x.arena x.state x.root := by
        simp only [round, substitute, hfind x .refl, hgenerate]
      rw [rounds, rounds, hround]
      refine Logged.bind_congr_of_ok fun round hok => ?_
      cases round with
      | settled st => rfl
      | failed error a st => rfl
      | replaced s n a st =>
          let y : Position σ := ⟨x.replacements + 1, a, st, x.root.follow s n⟩
          have hnext : rule.Next options x y := ⟨s, n, hok, rfl, rfl⟩
          exact ih (x := y) (fun z hz => hfind z (.head hnext hz)) (traversals + 1)

/-- A run that starts from an attached statement of a valid tree and ends well, with replacements
that are new and hold no blocks, ends at the statement that its root has given way to, in the same
place. Nothing outside the root has changed but slots that read something replaced, and these read
what it has given way to. All along the test is asked of nothing but what the descent from the
current root meets. -/
theorem run_confined {a : Arena} (h : a.Arises) {top : Node} (hpasses : a.Passes top)
    {ss : List StmtId} (hss : a.collect top = .ok ss) (hr : r ∈ ss)
    (hp : a.parent r = .ok (some b)) {st : σ}
    (hnew : rule.AnswersNew options (start a st (.stmt r))) {out : Outcome σ RewriteError Summary}
    (hrun : (rule.run options a st (.stmt r)).result = .ok out)
    {summary : Summary} (hok : out.result = .ok summary) :
    ∃ rs swaps last, a.collect (.stmt r) = .ok rs ∧
      rule.Makes options (start a st (.stmt r)) swaps last ∧ last.arena = out.arena ∧
      summary.root = .stmt (turnAll swaps r) ∧ (∀ x ∉ swaps.map Prod.fst, turnAll swaps x = x) ∧
      a.view.ChangedInside out.arena.view b r rs (turnAll swaps) ∧
      (∀ y, rule.Reaches options (start a st (.stmt r)) y →
        ∃ ts, y.arena.collect y.root = .ok ts) ∧
      ∀ other : Rule σ, other.generate = rule.generate →
        (∀ y ts, rule.Reaches options (start a st (.stmt r)) y → y.arena.collect y.root = .ok ts →
          ∀ t ∈ ts, other.test y.arena t = rule.test y.arena t) →
        other.run options a st (.stmt r) = rule.run options a st (.stmt r) := by
  rcases h.exists_valid_of_passes hpasses with ⟨ss', hvalid⟩
  cases (Arena.collect_eq_ok.1 hss).2.unique hvalid.meets.2
  have hplace := (Arena.parent_eq_ok.1 hp).2
  rcases hvalid.confined h.linked hr hplace with ⟨rs, hrs, hstart⟩
  have hall : ∀ y swaps, rule.Makes options (start a st (.stmt r)) swaps y →
      y.arena.Arises ∧ y.root = .stmt (turnAll swaps r) ∧
        ∃ cur, a.view.Confined y.arena.view b r rs cur (turnAll swaps) :=
    fun y swaps hmakes => hmakes.confined hnew h rfl hplace hstart
  have hcollect : ∀ y, rule.Reaches options (start a st (.stmt r)) y →
      ∃ ts, y.arena.collect y.root = .ok ts := by
    intro y hreach
    rcases hreach.exists_makes with ⟨swaps, hmakes⟩
    rcases hall y swaps hmakes with ⟨_, hroot, cur, hcur⟩
    exact ⟨cur, Arena.collect_eq_ok.2 (hroot ▸ hcur.meets)⟩
  rcases run_eq_ok.1 hrun with ⟨last, hreach, _, hends⟩
  rcases hreach.exists_makes with ⟨swaps, hmakes⟩
  rcases hall last swaps hmakes with ⟨_, hroot, cur, hcur⟩
  cases hends with
  | failed hround => cases hok
  | settled hround =>
      cases hok
      refine ⟨rs, swaps, last, Arena.collect_eq_ok.2 hrs, hmakes, rfl, hroot,
        fun x hx => View.turnAll_of_not_mem hx, hcur.changed, hcollect, ?_⟩
      intro other hgenerate htest
      have hrounds := rounds_congr (x := start a st (.stmt r)) hgenerate (fun y hy => by
        rcases hcollect y hy with ⟨ts, hts⟩
        exact findMatch_congr (Arena.collect_eq_ok.1 hts) (htest y ts hy hts)) options.budget 0
      exact congrArg (Logged.within (.rewriting (.stmt r))) hrounds

/-! ## A loop that gives way twice -/

/-- Replaces the statements in its state one after another by constants. -/
def constInTurn : Rule (List StmtId) where
  test _ s := do return (← get).head? == some s
  generate a := do
    let (s, a) ← (a.createStmt (.const (.int 0)) .i32 : Except Fault _)
    modify List.tail
    return (.ok s, a)

theorem of_generate_constInTurn {a a' : Arena} {st st' : List StmtId}
    {answer : Except String StmtId}
    (h : ((constInTurn.generate a).run st).result = .ok ((answer, a'), st')) :
    ∃ n, a.createStmt (.const (.int 0)) .i32 = .ok (n, a') ∧ answer = .ok n := by
  cases hcreate : a.createStmt (.const (.int 0)) .i32 with
  | error fault =>
      simp only [constInTurn, hcreate] at h
      cases h
  | ok made =>
      simp only [constInTurn, hcreate] at h
      cases h
      exact ⟨made.1, rfl, rfl⟩

theorem answersNew_constInTurn (options : RunOptions) (x : Position (List StmtId)) :
    constInTurn.AnswersNew options x := by
  intro y s st n a' st' _ _ hgenerate
  rcases of_generate_constInTurn hgenerate with ⟨n, hcreate, hanswer⟩
  cases hanswer
  refine ⟨.create .start rfl hcreate, ?_⟩
  rw [(Arena.of_createStmt hcreate).1]
  exact Nat.lt_irrefl _

/-- A loop over a constant, between a constant and a statement that prints the loop. -/
def printedLoop : List Edit :=
  [.createBlock, .createBlock, .createStmt (.const (.int 1)) .i32, .push ⟨0⟩ ⟨0⟩,
    .createStmt (.whileLoop ⟨1⟩) .void, .push ⟨0⟩ ⟨1⟩,
    .createStmt (.const (.int 2)) .i32, .push ⟨1⟩ ⟨2⟩,
    .createStmt (.print ⟨1⟩) .void, .push ⟨0⟩ ⟨3⟩]

/-- The constant in the loop gives way, then the loop, then what took its place. -/
def printedConst : List Edit :=
  printedLoop ++
    [.createStmt (.const (.int 0)) .i32, .replace ⟨2⟩ ⟨4⟩,
      .createStmt (.const (.int 0)) .i32, .replace ⟨1⟩ ⟨5⟩,
      .createStmt (.const (.int 0)) .i32, .replace ⟨5⟩ ⟨6⟩]

theorem run_confined_loop_twice :
    ∃ out, (constInTurn.run ⟨none, 5⟩ (Arena.ofEdits printedLoop) [⟨2⟩, ⟨1⟩, ⟨5⟩]
        (.stmt ⟨1⟩)).result = .ok out ∧
      out.result = .ok ⟨3, 4, .stmt ⟨6⟩⟩ ∧ out.arena.view.listed ⟨0⟩ = [⟨0⟩, ⟨6⟩, ⟨3⟩] ∧
      out.arena.view.kind? ⟨3⟩ = some (.print ⟨6⟩) ∧ out.arena.view.erased ⟨3⟩ = false := by
  have hvalidate : (Arena.ofEdits printedLoop).validate (.block ⟨0⟩) = .ok ⟨[], [], [], []⟩ := by
    decide +kernel
  have hcollect : (Arena.ofEdits printedLoop).collect (.block ⟨0⟩) =
      .ok [⟨0⟩, ⟨1⟩, ⟨2⟩, ⟨3⟩] := by decide +kernel
  have hloop : (Arena.ofEdits printedLoop).collect (.stmt ⟨1⟩) = .ok [⟨1⟩, ⟨2⟩] := by
    decide +kernel
  have hrun : (constInTurn.run ⟨none, 5⟩ (Arena.ofEdits printedLoop) [⟨2⟩, ⟨1⟩, ⟨5⟩]
      (.stmt ⟨1⟩)).result = .ok ⟨.ok ⟨3, 4, .stmt ⟨6⟩⟩, Arena.ofEdits printedConst, []⟩ := by
    decide +kernel
  rcases run_confined (Arena.arises_ofEdits printedLoop) ⟨_, hvalidate, rfl⟩ hcollect (by decide)
    (b := ⟨0⟩) (by decide +kernel) (answersNew_constInTurn _ _) hrun rfl with
    ⟨rs, swaps, last, hrs, _, _, hroot, _, hchanged, _⟩
  cases hloop.symm.trans hrs
  have hlast : turnAll swaps ⟨1⟩ = ⟨6⟩ := (Node.stmt.inj hroot).symm
  refine ⟨_, hrun, rfl, ?_, ?_, ?_⟩
  · rw [hchanged.listed_place, hlast]
    decide +kernel
  · rw [hchanged.kind?_live ⟨3⟩ (by decide +kernel) (by decide) (by decide +kernel)]
    have hkind : (Arena.ofEdits printedLoop).view.kind? ⟨3⟩ = some (.print ⟨1⟩) := by
      decide +kernel
    rw [hkind, ← hlast]
    rfl
  · rw [hchanged.erased ⟨3⟩ (by decide +kernel) (by decide)]
    decide +kernel

end Rule

end KernelIR
