import KernelIR.Proofs.Arena.Effects

/-!
# Erasing and replacing

Erasing drops what the doomed statements read and then tests each of them for readers. In a view
with an exact index that comes to one condition: nothing outside the doomed statements reads any of
them. Replacing redirects, exchanges and erases; what it needs besides is said of the view before
it.
-/

namespace KernelIR

namespace View

variable (v : View)

/-- The readings of `rs` are no longer recorded. -/
def unrecord (rs : List (StmtId × Use)) : View :=
  { v with uses := fun t => (v.uses t).filter fun u => (t, u) ∉ rs }

/-- What the statements of `doomed` read is no longer recorded. -/
def forget (doomed : List StmtId) : View :=
  { v with
    uses := fun t => (v.uses t).filter fun u =>
      ¬ (u.user ∈ doomed ∧ (v.operands u.user)[u.slot]? = some t) }

/-- The statements of `doomed` are tombstones. -/
def bury (doomed : List StmtId) : View :=
  { v with
    parent? := fun t => if t ∈ doomed then none else v.parent? t
    erased := fun t => decide (t ∈ doomed) || v.erased t }

/-- The readers of `old` read `new`, and `new` has the place of `old`. -/
def settle (old new : StmtId) : View :=
  match v.parent? old with
  | some b => (v.redirect old new).exchange b old new
  | none => v.redirect old new

variable {v}

/-- With an exact index a use is forgotten exactly if its user is. -/
theorem Indexed.forget_eq (h : v.Indexed) (doomed : List StmtId) :
    v.forget doomed = { v with uses := fun t => (v.uses t).filter fun u => u.user ∉ doomed } := by
  ext1 <;> try rfl
  funext t
  refine List.filter_congr fun u hu => ?_
  have hread := (reading?_eq_some.1 ((h.mem_uses t u).1 hu)).2
  simp [hread]

theorem forget_cons {s : StmtId} {k : Kind} (hk : v.kind? s = some k) (doomed : List StmtId) :
    (v.unrecord (Arena.readings s k)).forget doomed = v.forget (s :: doomed) := by
  ext1 <;> try rfl
  funext t
  simp only [forget, unrecord, List.filter_filter]
  refine List.filter_congr fun u _ => ?_
  by_cases hu : u.user = s
  · by_cases hslot : k.operands[u.slot]? = some t <;> simp [mem_readings, operands, hu, hk, hslot]
  · simp [mem_readings, operands, hu]

theorem bury_cons (v : View) (s : StmtId) (doomed : List StmtId) :
    ((v.markErased s).setParent s none).bury doomed = v.bury (s :: doomed) := by
  ext1 <;> try rfl
  case parent? =>
    funext t
    by_cases hts : t = s <;> simp [bury, setParent, markErased, hts]
  case erased =>
    funext t
    by_cases hts : t = s <;> simp [bury, setParent, markErased, hts]

theorem forget_uses_eq_nil (h : v.Indexed) {doomed : List StmtId} {t : StmtId} :
    (v.forget doomed).uses t = [] ↔ ∀ u ∈ v.uses t, u.user ∈ doomed := by
  rw [h.forget_eq]
  simp [List.filter_eq_nil_iff]

end View

namespace Arena

variable {a a' : Arena} {s : StmtId} {doomed : List StmtId}

/-! ## Dropping and burying -/

theorem view_foldl_dropUse (rs : List (StmtId × Use)) (a : Arena) :
    (rs.foldl (fun a (operand, u) => a.dropUse operand u) a).view = a.view.unrecord rs := by
  induction rs generalizing a with
  | nil => simp [View.unrecord]
  | cons r rs ih =>
      rcases r with ⟨operand, u⟩
      have hview : (a.dropUse operand u).view =
          a.view.setUses operand ((a.view.uses operand).filter (· ≠ u)) :=
        view_setUses a operand _
      rw [List.foldl_cons, ih, hview]
      ext1 <;> try rfl
      funext t
      by_cases ht : t = operand
      · subst ht
        simp only [View.unrecord, View.setUses, Function.update_self, List.filter_filter]
        refine List.filter_congr fun w _ => ?_
        by_cases hw : w = u <;> simp [hw]
      · simp [View.unrecord, View.setUses, ht]

theorem exists_dropUses {k : Kind} (hk : a.view.kind? s = some k) :
    ∃ a', a.dropUses s = .ok a' ∧ a'.view = a.view.unrecord (readings s k) := by
  refine ⟨(readings s k).foldl (fun a (operand, u) => a.dropUse operand u) a, ?_, ?_⟩
  · rw [dropUses, kind_eq_ok.2 hk]
    rfl
  · exact view_foldl_dropUse (readings s k) a

theorem exists_foldlM_dropUses (hissued : ∀ t ∈ doomed, a.view.HasStmt t) :
    ∃ a', doomed.foldlM dropUses a = .ok a' ∧ a'.view = a.view.forget doomed := by
  induction doomed generalizing a with
  | nil => exact ⟨a, rfl, by simp [View.forget]⟩
  | cons s doomed ih =>
      rcases exists_kind_iff.2 (hissued s List.mem_cons_self) with ⟨k, hk⟩
      rcases exists_dropUses hk with ⟨a₁, hdrop, hview⟩
      have hrest : ∀ t ∈ doomed, a₁.view.HasStmt t := by
        rw [hview]
        exact fun t ht => hissued t (List.mem_cons_of_mem s ht)
      rcases ih hrest with ⟨a', hfold, hview'⟩
      refine ⟨a', ?_, ?_⟩
      · rw [List.foldlM_cons, hdrop, ok_bind, hfold]
      · rw [hview', hview, View.forget_cons hk]

theorem bury_eq_ok (hunused : a.view.uses s = []) :
    a.bury s = .ok ((a.markErased s).setParent s none) := by
  have huses : a.usesOf s = [] := hunused
  simp [bury, huses, pure, Except.pure]

theorem exists_foldlM_bury (hissued : ∀ t ∈ doomed, a.view.HasStmt t)
    (hunused : ∀ t ∈ doomed, a.view.uses t = []) :
    ∃ a', doomed.foldlM bury a = .ok a' ∧ a'.view = a.view.bury doomed := by
  induction doomed generalizing a with
  | nil => exact ⟨a, rfl, by simp [View.bury]⟩
  | cons s doomed ih =>
      have hmark := view_markErased a s
      have hs : (a.markErased s).view.HasStmt s := by
        rw [hmark]
        exact hissued s List.mem_cons_self
      have hview : ((a.markErased s).setParent s none).view =
          (a.view.markErased s).setParent s none := by
        rw [view_setParent hs, hmark]
      -- Burying one statement creates none and leaves the uses of the others as they are.
      have hissuedRest : ∀ t ∈ doomed, ((a.markErased s).setParent s none).view.HasStmt t := by
        rw [hview]
        exact fun t ht => hissued t (List.mem_cons_of_mem s ht)
      have hunusedRest : ∀ t ∈ doomed, ((a.markErased s).setParent s none).view.uses t = [] := by
        rw [hview]
        exact fun t ht => hunused t (List.mem_cons_of_mem s ht)
      rcases ih hissuedRest hunusedRest with ⟨a', hfold, hview'⟩
      refine ⟨a', ?_, ?_⟩
      · rw [List.foldlM_cons, bury_eq_ok (hunused s List.mem_cons_self), ok_bind, hfold]
      · rw [hview', hview, View.bury_cons]

/-- Burying ends at the first statement that something reads. -/
theorem foldlM_bury_eq_error {t : StmtId} (ht : t ∈ doomed) (hused : a.view.uses t ≠ []) :
    ∃ t ∈ doomed, ∃ n, doomed.foldlM bury a = .error (.erasedUsed t n) := by
  induction doomed generalizing a with
  | nil => cases ht
  | cons s doomed ih =>
      rcases huses : a.usesOf s with _ | ⟨u, us⟩
      · rcases List.mem_cons.1 ht with rfl | ht
        · exact absurd huses hused
        · rcases ih (a := (a.markErased s).setParent s none) ht hused with ⟨t', ht', n, hfold⟩
          refine ⟨t', List.mem_cons_of_mem s ht', n, ?_⟩
          rw [List.foldlM_cons, bury_eq_ok huses, ok_bind, hfold]
      · refine ⟨s, List.mem_cons_self, us.length + 1, ?_⟩
        simp [List.foldlM_cons, bury, huses]

/-! ## Erasing -/

/-- Erasing a detached statement that owns `doomed`: it succeeds exactly if nothing outside reads
what goes. -/
theorem erase_of_owns (h : a.view.Indexed) (hdetached : a.view.parent? s = none)
    (howns : a.view.Owns s doomed) :
    (a.view.Unread doomed → ∃ e, a.erase s = .ok e ∧ e.arena.view = a.view.erase doomed ∧
      e.discarded = doomed.length - 1) ∧
    (¬ a.view.Unread doomed → ∃ t ∈ doomed, ∃ n, a.erase s = .error (.erasedUsed t n)) := by
  have hissued : ∀ t ∈ doomed, a.view.HasStmt t := fun t ht => howns.hasStmt ht
  have hparent : a.parent s = .ok none :=
    parent_eq_ok.2 ⟨hissued s howns.self_mem, hdetached⟩
  rcases exists_foldlM_dropUses hissued with ⟨a₁, hdrop, hview₁⟩
  have hunfold : a.erase s =
      doomed.foldlM bury a₁ >>= fun a => pure ⟨a, doomed.length - 1⟩ := by
    simp only [erase, hparent, ok_bind, owned_eq_ok.2 howns, hdrop]
  -- What is left of a list after the dropping are the readers outside.
  have hunused : ∀ t, a₁.view.uses t = [] ↔ ∀ u ∈ a.view.uses t, u.user ∈ doomed := fun t => by
    rw [hview₁, View.forget_uses_eq_nil h]
  constructor
  · intro hunread
    rcases exists_foldlM_bury (a := a₁) (by rw [hview₁]; exact hissued)
      (fun t ht => (hunused t).2 (hunread t ht)) with ⟨a₂, hbury, hview₂⟩
    refine ⟨⟨a₂, doomed.length - 1⟩, by rw [hunfold, hbury]; rfl, ?_, rfl⟩
    rw [hview₂, hview₁, h.forget_eq]
    rfl
  · intro hread
    have hexists : ∃ t ∈ doomed, a₁.view.uses t ≠ [] := by
      by_contra hnone
      push Not at hnone
      exact hread fun t ht => (hunused t).1 (hnone t ht)
    rcases hexists with ⟨t, ht, hused⟩
    rcases foldlM_bury_eq_error ht hused with ⟨t', ht', n, hbury⟩
    exact ⟨t', ht', n, by rw [hunfold, hbury]; rfl⟩

theorem of_erase (h : a.view.Indexed) {e : Erasure} (herase : a.erase s = .ok e) :
    a.view.parent? s = none ∧ ∃ doomed, a.view.Owns s doomed ∧ a.view.Unread doomed ∧
      e.arena.view = a.view.erase doomed ∧ e.discarded = doomed.length - 1 := by
  have hopen := herase
  simp only [erase, bind_eq_ok, parent_eq_ok] at hopen
  rcases hopen with ⟨p, ⟨hs, hp⟩, hopen⟩
  cases p with
  | some b => cases hopen
  | none =>
      simp only [bind_eq_ok, owned_eq_ok] at hopen
      rcases hopen with ⟨doomed, howns, _⟩
      rcases erase_of_owns h hp howns with ⟨hok, hfault⟩
      by_cases hunread : a.view.Unread doomed
      · rcases hok hunread with ⟨e', he', hview, hcount⟩
        rw [herase] at he'
        cases he'
        exact ⟨hp, doomed, howns, hunread, hview, hcount⟩
      · rcases hfault hunread with ⟨t, _, n, herror⟩
        rw [herase] at herror
        cases herror

/-! ## Replacing -/

variable {old new : StmtId}

theorem exchange_eq_ok {b : BlockId} (hb : a.view.HasBlock b) (hmem : old ∈ a.view.listed b)
    (new : StmtId) (hnew : a.view.HasStmt new) (hold : a.view.HasStmt old) :
    ∃ a', a.exchange b old new = .ok a' ∧ a'.view = a.view.exchange b old new := by
  have hattach := view_attach hb hnew ((a.view.listed b).set ((a.view.listed b).idxOf old) new)
  have hold' : ((a.setListing b ((a.view.listed b).set ((a.view.listed b).idxOf old) new)).setParent
      new (some b)).view.HasStmt old := by
    rw [hattach]
    exact hold
  refine ⟨_, ?_, (view_setParent hold' none).trans ?_⟩
  · simp only [exchange, listing_eq_ok.2 ⟨hb, rfl⟩, ok_bind, idxOf?_of_mem hmem]
    rfl
  · rw [hattach]
    rfl

theorem of_exchange {b : BlockId} (h : a.exchange b old new = .ok a') :
    a.view.HasBlock b ∧ old ∈ a.view.listed b := by
  simp only [exchange, bind_eq_ok, listing_eq_ok] at h
  rcases h with ⟨ss, ⟨hb, rfl⟩, h⟩
  refine ⟨hb, ?_⟩
  by_contra hmem
  rw [List.idxOf?_eq_none_iff.2 hmem] at h
  cases h

/-- What replacing comes to once its tests are passed: the arena in which `old` is erased. -/
theorem replace_eq_erase (h : a.view.Indexed) (hne : old ≠ new) (hnew : a.view.Placeable new)
    (howns : a.view.Owns old doomed) (hreads : ∀ t ∈ a.view.operands new, t ∉ doomed)
    (hplace : ∀ b, a.view.parent? old = some b → a.view.HasBlock b ∧ old ∈ a.view.listed b) :
    ∃ a₂ : Arena, a₂.view = a.view.settle old new ∧ a.replace old new = a₂.erase old := by
  have hold : a.view.HasStmt old := howns.hasStmt howns.self_mem
  have hrequire : a.requirePlaceable .replace new = .ok () := requirePlaceable_eq_ok.2 hnew
  rcases exists_kind_iff.2 hnew.hasStmt with ⟨k, hk⟩
  have hfind : k.operands.find? (doomed.contains ·) = none := by
    refine List.find?_eq_none.2 fun t ht => ?_
    rw [← View.operands_of_kind hk] at ht
    simpa using hreads t ht
  rcases exists_redirect h hne with ⟨a₁, hredirect, hview₁⟩
  have hparent : a.parent old = .ok (a.view.parent? old) := parent_eq_ok.2 ⟨hold, rfl⟩
  simp only [replace, if_neg hne, hrequire, ok_bind, owned_eq_ok.2 howns, kind_eq_ok.2 hk, hfind,
    hparent, hredirect, View.settle]
  cases hp : a.view.parent? old with
  | none => exact ⟨a₁, hview₁, rfl⟩
  | some b =>
      rcases hplace b hp with ⟨hb, hmem⟩
      have hb₁ : a₁.view.HasBlock b := by rwa [hview₁]
      have hmem₁ : old ∈ a₁.view.listed b := by rwa [hview₁]
      have hnew₁ : a₁.view.HasStmt new := by
        rw [hview₁]
        exact hnew.hasStmt
      have hold₁ : a₁.view.HasStmt old := by rwa [hview₁]
      rcases exchange_eq_ok hb₁ hmem₁ new hnew₁ hold₁ with ⟨a₂, hexchange, hview₂⟩
      refine ⟨a₂, by rw [hview₂, hview₁], ?_⟩
      simp only [hexchange, ok_bind]

/-- What has to hold for a replacement that does not fault, up to the erasure of `old`. -/
theorem of_replace (h : a.view.Indexed) {e : Erasure} (hreplace : a.replace old new = .ok e) :
    old ≠ new ∧ a.view.Placeable new ∧
      (∃ doomed, a.view.Owns old doomed ∧ ∀ t ∈ a.view.operands new, t ∉ doomed) ∧
      (∀ b, a.view.parent? old = some b → a.view.HasBlock b ∧ old ∈ a.view.listed b) ∧
      ∃ a₂ : Arena, a₂.view = a.view.settle old new ∧ a₂.erase old = .ok e := by
  by_cases hne : old = new
  · simp [replace, hne] at hreplace
  · have hopen := hreplace
    simp only [replace, if_neg hne, bind_eq_ok, owned_eq_ok, kind_eq_ok] at hopen
    rcases hopen with ⟨_, hrequire, doomed, howns, k, hk, hopen⟩
    have hnew := requirePlaceable_eq_ok.1 hrequire
    cases hfind : k.operands.find? (doomed.contains ·) with
    | some operand =>
        rw [hfind] at hopen
        cases hopen
    | none =>
        rw [hfind] at hopen
        simp only [bind_eq_ok, parent_eq_ok] at hopen
        rcases hopen with ⟨p, ⟨hold, rfl⟩, a₁, hredirect, hopen⟩
        have hreads : ∀ t ∈ a.view.operands new, t ∉ doomed := by
          intro t ht
          rw [View.operands_of_kind hk] at ht
          simpa using List.find?_eq_none.1 hfind t ht
        -- The exchange comes after the redirecting, which does not change what is listed.
        have hplace : ∀ b, a.view.parent? old = some b →
            a.view.HasBlock b ∧ old ∈ a.view.listed b := by
          intro b hb
          rw [hb] at hopen
          rcases bind_eq_ok.1 hopen with ⟨a₂, hexchange, _⟩
          have hfound := of_exchange hexchange
          rwa [of_redirect h hne hredirect] at hfound
        refine ⟨hne, hnew, ⟨doomed, howns, hreads⟩, hplace, ?_⟩
        rcases replace_eq_erase h hne hnew howns hreads hplace with ⟨a₂, hview₂, hsame⟩
        exact ⟨a₂, hview₂, hsame ▸ hreplace⟩

end Arena

end KernelIR
