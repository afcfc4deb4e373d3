import KernelIR.Proofs.Arena.Links

/-!
# Replacing, exactly

What is owned by a statement does not change while another one takes its place. So whether replacing
succeeds can be said of the arena before it: the new statement can be placed and reads nothing that
goes, and whatever else reads something that goes, other than the old statement itself, goes too.
-/

namespace KernelIR

namespace View

variable {v : View} {old new : StmtId} {doomed : List StmtId}

/-- Apart from `old`, nothing in `doomed` is read by a live statement outside. -/
def UnreadBut (v : View) (old : StmtId) (doomed : List StmtId) : Prop :=
  ∀ t ∈ doomed, t ≠ old → ∀ u, v.reading? u = some t → u.user ∈ doomed

/-! ## After the new statement has settled -/

theorem settle_of_detached (hp : v.parent? old = none) : v.settle old new = v.redirect old new := by
  simp [settle, hp]

theorem settle_of_parent {b : BlockId} (hp : v.parent? old = some b) :
    v.settle old new = (v.redirect old new).exchange b old new := by
  simp [settle, hp]

theorem children_settle (v : View) (old new s : StmtId) :
    (v.settle old new).children s = v.children s := by
  cases hp : v.parent? old with
  | none => rw [settle_of_detached hp, children_redirect]
  | some b =>
      rw [settle_of_parent hp]
      exact children_redirect v old new s

theorem owner_settle (v : View) (old new : StmtId) : (v.settle old new).owner? = v.owner? := by
  cases hp : v.parent? old with
  | none => rw [settle_of_detached hp]; rfl
  | some b => rw [settle_of_parent hp]; rfl

theorem uses_settle (v : View) (old new : StmtId) :
    (v.settle old new).uses = (v.redirect old new).uses := by
  cases hp : v.parent? old with
  | none => rw [settle_of_detached hp]
  | some b => rw [settle_of_parent hp]; rfl

theorem erased_settle (v : View) (old new : StmtId) : (v.settle old new).erased = v.erased := by
  cases hp : v.parent? old with
  | none => rw [settle_of_detached hp]; rfl
  | some b => rw [settle_of_parent hp]; rfl

theorem parent_settle_self (v : View) (old new : StmtId) :
    (v.settle old new).parent? old = none := by
  cases hp : v.parent? old with
  | none =>
      rw [settle_of_detached hp]
      exact hp
  | some b => simp [settle_of_parent hp, exchange]

theorem listed_settle_of_ne (v : View) {c : BlockId} (hc : v.parent? old ≠ some c) :
    (v.settle old new).listed c = v.listed c := by
  cases hp : v.parent? old with
  | none => rw [settle_of_detached hp]; rfl
  | some b =>
      have hcb : c ≠ b := by
        rintro rfl
        exact hc hp
      rw [settle_of_parent hp, Linked.listed_exchange_of_ne _ hcb]
      rfl

theorem hasStmt_settle {s : StmtId} : (v.settle old new).HasStmt s ↔ v.HasStmt s := by
  cases hp : v.parent? old with
  | none => rw [settle_of_detached hp]; rfl
  | some b => rw [settle_of_parent hp]; rfl

theorem hasBlock_settle {b : BlockId} : (v.settle old new).HasBlock b ↔ v.HasBlock b := by
  cases hp : v.parent? old with
  | none => rw [settle_of_detached hp]; rfl
  | some b => rw [settle_of_parent hp]; rfl

theorem resolves_settle {s : StmtId} : (v.settle old new).Resolves s ↔ v.Resolves s := by
  simp only [Resolves, children_settle, hasStmt_settle, hasBlock_settle]

/-- The block of `old` is not owned by anything that goes with `old`. -/
theorem Owns.not_mem_ownedChildren (howns : v.Owns old doomed) {b : BlockId}
    (hmem : old ∈ v.listed b) {t : StmtId} (ht : t ∈ doomed) : b ∉ v.ownedChildren t :=
  Descends.not_mem_held v.ownedChildren v.listed (fun _ => rfl) howns hmem ht

/-- What `old` owns stays as it was. -/
theorem Owns.settle (howns : v.Owns old doomed)
    (hplace : ∀ b, v.parent? old = some b → old ∈ v.listed b) :
    (v.settle old new).Owns old doomed := by
  refine Visits.congr howns (fun t ht => resolves_settle.2 (howns.enter_of_mem ht)) ?_
  intro t ht
  have howned : (v.settle old new).ownedChildren t = v.ownedChildren t := by
    simp only [ownedChildren, children_settle, owner_settle]
  show ((v.settle old new).ownedChildren t).flatMap _ = _
  rw [howned]
  -- Only the block of `old` is listed anew, and nothing that goes owns that one.
  refine List.flatMap_congr fun c hc => listed_settle_of_ne v ?_
  intro hp
  exact howns.not_mem_ownedChildren (hplace c hp) ht hc

theorem Indexed.unread_settle_iff (h : v.Indexed) (hne : old ≠ new) (hnew : new ∉ doomed) :
    (v.settle old new).Unread doomed ↔ v.UnreadBut old doomed := by
  -- The uses of `old` have gone over to `new`, which stays.
  have huses : ∀ t ∈ doomed, (v.settle old new).uses t = if t = old then [] else v.uses t := by
    intro t ht
    have htn : t ≠ new := by
      rintro rfl
      exact hnew ht
    rw [uses_settle]
    by_cases hto : t = old
    · simp [View.redirect, hto, hne]
    · simp [View.redirect, hto, htn]
  constructor
  · intro hunread t ht hto u hu
    have hall := hunread t ht u
    rw [huses t ht, if_neg hto] at hall
    exact hall ((h.mem_uses t u).2 hu)
  · intro hunread t ht u hu
    rw [huses t ht] at hu
    by_cases hto : t = old
    · simp [hto] at hu
    · rw [if_neg hto] at hu
      exact hunread t ht hto u ((h.mem_uses t u).1 hu)

/-! ## After the old statement has gone -/

/-- `new` has taken the place of `old`, which has gone with `doomed`. -/
def replaced (v : View) (old new : StmtId) (doomed : List StmtId) : View :=
  (v.settle old new).erase doomed

theorem children_replaced (v : View) (old new : StmtId) (doomed : List StmtId) (s : StmtId) :
    (v.replaced old new doomed).children s = v.children s :=
  children_settle v old new s

theorem owner_replaced (v : View) (old new : StmtId) (doomed : List StmtId) :
    (v.replaced old new doomed).owner? = v.owner? :=
  owner_settle v old new

theorem hasStmt_replaced {s : StmtId} : (v.replaced old new doomed).HasStmt s ↔ v.HasStmt s :=
  hasStmt_settle

theorem hasBlock_replaced {b : BlockId} :
    (v.replaced old new doomed).HasBlock b ↔ v.HasBlock b :=
  hasBlock_settle

theorem resolves_replaced {s : StmtId} :
    (v.replaced old new doomed).Resolves s ↔ v.Resolves s :=
  resolves_settle

theorem erased_replaced (v : View) (old new : StmtId) (doomed : List StmtId) (s : StmtId) :
    (v.replaced old new doomed).erased s = (decide (s ∈ doomed) || v.erased s) := by
  show (decide (s ∈ doomed) || (v.settle old new).erased s) = _
  rw [erased_settle]

theorem live_replaced {s : StmtId} :
    (v.replaced old new doomed).erased s = false ↔ s ∉ doomed ∧ v.erased s = false := by
  rw [erased_replaced, Bool.or_eq_false_iff, decide_eq_false_iff_not]

theorem kind_replaced (v : View) (old new : StmtId) (doomed : List StmtId) :
    (v.replaced old new doomed).kind? = (v.redirect old new).kind? := by
  show (v.settle old new).kind? = _
  cases hp : v.parent? old with
  | none => rw [settle_of_detached hp]
  | some b => rw [settle_of_parent hp]; rfl

theorem kind_replaced_of_live {s : StmtId} (hlive : v.erased s = false) :
    (v.replaced old new doomed).kind? s = (v.kind? s).map (Kind.mapSlots fun _ => turn old new) := by
  simp [kind_replaced, redirect, hlive]

theorem uses_replaced (v : View) (old new : StmtId) (doomed : List StmtId) (s : StmtId) :
    (v.replaced old new doomed).uses s =
      ((v.redirect old new).uses s).filter fun u => u.user ∉ doomed := by
  show ((v.settle old new).uses s).filter _ = _
  rw [uses_settle]

theorem operands_replaced {s : StmtId} (hlive : v.erased s = false) :
    (v.replaced old new doomed).operands s = (v.operands s).map (turn old new) := by
  calc
    (v.replaced old new doomed).operands s = (v.redirect old new).operands s := by
      rw [operands, kind_replaced, operands]
    _ = (v.operands s).map (turn old new) := by
      rw [operands_redirect, hlive]
      rfl

theorem parent_replaced (hnew : v.Placeable new) {s : StmtId} (hs : s ∉ doomed)
    (hold : old ∈ doomed) :
    (v.replaced old new doomed).parent? s = if s = new then v.parent? old else v.parent? s := by
  have hso : s ≠ old := by
    rintro rfl
    exact hs hold
  have hkept : (v.replaced old new doomed).parent? s = (v.settle old new).parent? s := if_neg hs
  rw [hkept]
  cases hp : v.parent? old with
  | none =>
      rw [settle_of_detached hp]
      by_cases hsn : s = new
      · rw [if_pos hsn, hsn]
        exact hnew.detached
      · rw [if_neg hsn]
        rfl
  | some b =>
      rw [settle_of_parent hp]
      by_cases hsn : s = new
      · subst hsn
        simp [exchange, hso]
      · simp [exchange, hso, hsn, redirect]

theorem Linked.mem_listed_replaced (h : v.Linked) (hold : v.erased old = false) {s : StmtId}
    {c : BlockId} : s ∈ (v.replaced old new doomed).listed c ↔
      (s = new ∧ v.parent? old = some c) ∨ (s ∈ v.listed c ∧ s ≠ old) := by
  show s ∈ (v.settle old new).listed c ↔ _
  cases hp : v.parent? old with
  | none =>
      have hnot : old ∉ v.listed c := by
        intro hmem
        rw [(h.parent_iff old hold c).2 hmem] at hp
        cases hp
      rw [settle_of_detached hp]
      show s ∈ v.listed c ↔ _
      constructor
      · intro hs
        refine .inr ⟨hs, ?_⟩
        rintro rfl
        exact hnot hs
      · rintro (⟨_, hc⟩ | ⟨hs, _⟩)
        · cases hc
        · exact hs
  | some b =>
      have hmem : old ∈ (v.redirect old new).listed b := h.listed_of_parent hp
      rw [settle_of_parent hp, (h.redirect old new).mem_listed_exchange hmem]
      show (s = new ∧ c = b) ∨ (s ∈ v.listed c ∧ s ≠ old) ↔ _
      simp [eq_comm]

theorem stmtCount_replaced (v : View) (old new : StmtId) (doomed : List StmtId) :
    (v.replaced old new doomed).stmtCount = v.stmtCount := by
  show (v.settle old new).stmtCount = _
  cases hp : v.parent? old with
  | none => rw [settle_of_detached hp]; rfl
  | some b => rw [settle_of_parent hp]; rfl

theorem blockCount_replaced (v : View) (old new : StmtId) (doomed : List StmtId) :
    (v.replaced old new doomed).blockCount = v.blockCount := by
  show (v.settle old new).blockCount = _
  cases hp : v.parent? old with
  | none => rw [settle_of_detached hp]; rfl
  | some b => rw [settle_of_parent hp]; rfl

theorem type_replaced (v : View) (old new : StmtId) (doomed : List StmtId) :
    (v.replaced old new doomed).type? = v.type? := by
  show (v.settle old new).type? = _
  cases hp : v.parent? old with
  | none => rw [settle_of_detached hp]; rfl
  | some b => rw [settle_of_parent hp]; rfl

/-- A block lists after the replacement what it listed before it, renamed. -/
theorem Linked.listed_replaced (h : v.Linked) (hold : v.erased old = false) (c : BlockId) :
    (v.replaced old new doomed).listed c = (v.listed c).map (turn old new) := by
  have hsame : old ∉ v.listed c → (v.listed c).map (turn old new) = v.listed c := by
    intro hnot
    refine (List.map_congr_left fun y hy => turn_of_ne ?_ new).trans (List.map_id _)
    rintro rfl
    exact hnot hy
  show (v.settle old new).listed c = _
  by_cases hp : v.parent? old = some c
  · rw [settle_of_parent hp, (h.redirect old new).listed_exchange_self]
    rfl
  · rw [listed_settle_of_ne v hp, hsame fun hmem => hp ((h.parent_iff old hold c).2 hmem)]

theorem Linked.below_replaced (h : v.Linked) (hold : v.erased old = false) (s : StmtId) :
    (v.replaced old new doomed).below s = (v.below s).map (turn old new) := by
  rw [below, children_replaced, below, List.map_flatMap]
  exact List.flatMap_congr fun c _ => h.listed_replaced hold c

/-- Nothing that was unread is read afterwards, unless it has come to replace something. -/
theorem UnreadBut.replaced {s : StmtId} {segment : List StmtId} (h : v.UnreadBut s segment)
    (hnew : new ∉ segment) (old : StmtId) (doomed : List StmtId) :
    (v.replaced old new doomed).UnreadBut s segment := by
  intro t ht hts u hu
  rcases reading?_eq_some.1 hu with ⟨hlive, hread⟩
  have hlive' : v.erased u.user = false := (live_replaced.1 hlive).2
  rw [operands_replaced hlive', List.getElem?_map, Option.map_eq_some_iff] at hread
  rcases hread with ⟨x, hx, hturn⟩
  have hxo : x ≠ old := by
    rintro rfl
    rw [turn_self] at hturn
    exact hnew (hturn ▸ ht)
  rw [turn_of_ne hxo] at hturn
  subst hturn
  exact h x ht hts u (reading?_eq_some.2 ⟨hlive', hx⟩)

/-- A statement that can be placed is owned by nothing but itself. -/
theorem Linked.not_mem_owned (h : v.Linked) (hnew : v.Placeable new) (howns : v.Owns old doomed)
    (hne : old ≠ new) : new ∉ doomed := by
  intro hmem
  rcases howns.mem_cases hmem with hself | ⟨p, _, b, _, _, hlisted⟩
  · exact hne hself.symm
  · exact h.not_listed hnew b hlisted

end View

namespace Arena

variable {a : Arena} {old new : StmtId} {doomed : List StmtId}

/-- Replacing by a statement that can be placed and that reads nothing in `doomed`: it succeeds
exactly if nothing outside `doomed` reads anything there but `old`. -/
theorem replace_of_owns (h : a.Arises) (hne : old ≠ new) (hnew : a.view.Placeable new)
    (howns : a.view.Owns old doomed) (hreads : ∀ t ∈ a.view.operands new, t ∉ doomed) :
    (a.view.UnreadBut old doomed → ∃ e, a.replace old new = .ok e ∧
      e.arena.view = a.view.replaced old new doomed ∧ e.discarded = doomed.length - 1) ∧
    (¬ a.view.UnreadBut old doomed →
      ∃ t ∈ doomed, ∃ n, a.replace old new = .error (.erasedUsed t n)) := by
  have hplace := fun b => h.linked.place_of_parent (s := old) (b := b)
  rcases replace_eq_erase h.indexed hne hnew howns hreads hplace with ⟨a₂, hview, hreplace⟩
  have hindexed : a₂.view.Indexed := by
    rw [hview]
    exact h.indexed.steps (steps_settle hne hnew hplace)
  have howns₂ : a₂.view.Owns old doomed := by
    rw [hview]
    exact howns.settle fun b hb => (hplace b hb).2
  have hdetached : a₂.view.parent? old = none := by
    rw [hview]
    exact View.parent_settle_self a.view old new
  have hunread : a₂.view.Unread doomed ↔ a.view.UnreadBut old doomed := by
    rw [hview]
    exact h.indexed.unread_settle_iff hne (h.linked.not_mem_owned hnew howns hne)
  rw [hreplace, ← hunread, View.replaced, ← hview]
  exact erase_of_owns hindexed hdetached howns₂

/-- What a replacement that does not fault needs and does, and how many it says went with it. -/
theorem counted_of_replace (h : a.Arises) {e : Erasure} (hreplace : a.replace old new = .ok e) :
    old ≠ new ∧ a.view.Placeable new ∧ ∃ doomed, a.view.Owns old doomed ∧
      a.view.UnreadBut old doomed ∧ e.arena.view = a.view.replaced old new doomed ∧
      e.discarded = doomed.length - 1 := by
  rcases of_replace h.indexed hreplace with ⟨hne, hnew, ⟨doomed, howns, hreads⟩, _⟩
  rcases replace_of_owns h hne hnew howns hreads with ⟨hok, hfault⟩
  by_cases hunread : a.view.UnreadBut old doomed
  · rcases hok hunread with ⟨e', he', hview, hcount⟩
    rw [hreplace] at he'
    cases he'
    exact ⟨hne, hnew, doomed, howns, hunread, hview, hcount⟩
  · rcases hfault hunread with ⟨t, _, n, herror⟩
    rw [hreplace] at herror
    cases herror

theorem replaced_of_replace (h : a.Arises) {e : Erasure} (hreplace : a.replace old new = .ok e) :
    old ≠ new ∧ a.view.Placeable new ∧ ∃ doomed, a.view.Owns old doomed ∧
      a.view.UnreadBut old doomed ∧ e.arena.view = a.view.replaced old new doomed := by
  rcases counted_of_replace h hreplace with ⟨hne, hnew, doomed, howns, hunread, hview, _⟩
  exact ⟨hne, hnew, doomed, howns, hunread, hview⟩

end Arena

end KernelIR
