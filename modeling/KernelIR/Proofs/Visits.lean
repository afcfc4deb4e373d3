import Mathlib.Data.List.Nodup
import Mathlib.Data.List.Infix

/-!
# Descents that end

`Visits enter below xs ss` says that the descent from the places `xs`, one after another, ends and
that `ss` lists what it meets, each place before what is below it. A descent goes from a place `x`
to the places `below x`, provided that `x` may be entered.

A descent that ends never comes back to a place from below it, so what it meets has no repetition as
soon as no place is below two others.
-/

namespace KernelIR

inductive Visits {α : Type} (enter : α → Prop) (below : α → List α) : List α → List α → Prop
  | nil : Visits enter below [] []
  | cons {x : α} {xs inner outer : List α} :
      enter x → Visits enter below (below x) inner → Visits enter below xs outer →
        Visits enter below (x :: xs) (x :: (inner ++ outer))

namespace Visits

variable {α : Type} {enter : α → Prop} {below : α → List α} {xs ys ss ts : List α} {x t : α}

/-! ## Joining and splitting -/

theorem unique (h : Visits enter below xs ss) (h' : Visits enter below xs ts) : ss = ts := by
  induction h generalizing ts with
  | nil =>
      cases h'
      rfl
  | cons _ _ _ ihInner ihOuter =>
      cases h' with
      | cons _ hinner houter => rw [ihInner hinner, ihOuter houter]

theorem append (h : Visits enter below xs ss) (h' : Visits enter below ys ts) :
    Visits enter below (xs ++ ys) (ss ++ ts) := by
  induction h with
  | nil => exact h'
  | cons henter hinner _ _ ihOuter =>
      simpa [List.append_assoc] using Visits.cons henter hinner ihOuter

theorem of_append (h : Visits enter below (xs ++ ys) ss) :
    ∃ front back, Visits enter below xs front ∧ Visits enter below ys back ∧
      ss = front ++ back := by
  induction xs generalizing ss with
  | nil => exact ⟨[], ss, .nil, h, rfl⟩
  | cons x xs ih =>
      cases h with
      | cons henter hinner houter =>
          rcases ih houter with ⟨front, back, hfront, hback, rfl⟩
          exact ⟨_, back, .cons henter hinner hfront, hback, by simp⟩

theorem cons_iff {ss : List α} : Visits enter below (x :: xs) ss ↔
    enter x ∧ ∃ inner, Visits enter below (below x) inner ∧
      ∃ outer, Visits enter below xs outer ∧ ss = x :: (inner ++ outer) := by
  constructor
  · intro h
    cases h with
    | cons henter hinner houter => exact ⟨henter, _, hinner, _, houter, rfl⟩
  · rintro ⟨henter, inner, hinner, outer, houter, rfl⟩
    exact .cons henter hinner houter

theorem singleton_iff {ss : List α} : Visits enter below [x] ss ↔
    enter x ∧ ∃ inner, Visits enter below (below x) inner ∧ ss = x :: inner := by
  rw [cons_iff]
  constructor
  · rintro ⟨henter, inner, hinner, outer, houter, rfl⟩
    cases houter
    exact ⟨henter, inner, hinner, by simp⟩
  · rintro ⟨henter, inner, hinner, rfl⟩
    exact ⟨henter, inner, hinner, [], .nil, by simp⟩

/-- A place below which there is nothing is met alone. -/
theorem singleton_of_below (henter : enter x) (hbelow : below x = []) :
    Visits enter below [x] [x] := by
  refine singleton_iff.2 ⟨henter, [], ?_, rfl⟩
  rw [hbelow]
  exact .nil

/-- The descent through several lists of places ends if the descent through each of them does. -/
theorem exists_flatMap {β : Type} {parts : β → List α} {bs : List β}
    (h : ∀ b ∈ bs, ∃ ss, Visits enter below (parts b) ss) :
    ∃ ss, Visits enter below (bs.flatMap parts) ss := by
  induction bs with
  | nil => exact ⟨[], .nil⟩
  | cons b bs ih =>
      rcases h b List.mem_cons_self with ⟨here, hhere⟩
      rcases ih fun c hc => h c (List.mem_cons_of_mem b hc) with ⟨rest, hrest⟩
      exact ⟨here ++ rest, append hhere hrest⟩

/-- The descent from several places ends if the descent from each of them does. -/
theorem exists_of_forall (h : ∀ y ∈ xs, ∃ ss, Visits enter below [y] ss) :
    ∃ ss, Visits enter below xs ss := by
  have hall : ∃ ss, Visits enter below (xs.flatMap fun y => [y]) ss := exists_flatMap h
  rwa [List.flatMap_singleton'] at hall

/-! ## What a descent meets -/

theorem roots_subset (h : Visits enter below xs ss) : xs ⊆ ss := by
  induction h with
  | nil => exact List.Subset.refl []
  | cons _ _ _ _ ihOuter =>
      intro y hy
      rcases List.mem_cons.1 hy with rfl | hy
      · exact List.mem_cons_self
      · exact List.mem_cons_of_mem _ (List.mem_append_right _ (ihOuter hy))

theorem enter_of_mem (h : Visits enter below xs ss) (ht : t ∈ ss) : enter t := by
  induction h with
  | nil => cases ht
  | cons henter _ _ ihInner ihOuter =>
      rcases List.mem_cons.1 ht with rfl | ht
      · exact henter
      · rcases List.mem_append.1 ht with ht | ht
        · exact ihInner ht
        · exact ihOuter ht

/-- Behind each place that is met comes, first of all, what is met below it. -/
theorem of_split {front back : List α} (h : Visits enter below xs (front ++ t :: back)) :
    enter t ∧ ∃ inner rest, Visits enter below (below t) inner ∧ back = inner ++ rest := by
  generalize hss : front ++ t :: back = ss at h
  induction h generalizing front back with
  | nil => simp at hss
  | @cons x xs inner outer henter hinner _ ihInner ihOuter =>
      -- `t` is the place where the descent starts, or is met below that one, or after it.
      rcases List.append_eq_cons_iff.1 hss with ⟨rfl, hhead⟩ | ⟨front, rfl, hrest⟩
      · cases hhead
        exact ⟨henter, inner, outer, hinner, rfl⟩
      · rcases List.append_eq_append_iff.1 hrest.symm with ⟨gap, hin, hback⟩ | ⟨gap, rfl, hout⟩
        · cases gap with
          | nil => exact ihOuter (show [] ++ t :: back = outer from hback)
          | cons y gap =>
              cases hback
              rcases ihInner hin.symm with ⟨ht, deep, rest, hdeep, rfl⟩
              exact ⟨ht, deep, rest ++ outer, hdeep, by simp⟩
        · exact ihOuter hout.symm

/-- The descent of each place that is met is a segment of the whole. -/
theorem exists_segment (h : Visits enter below xs ss) (ht : t ∈ ss) :
    ∃ front segment back, Visits enter below [t] segment ∧ ss = front ++ (segment ++ back) := by
  rcases List.append_of_mem ht with ⟨front, back, rfl⟩
  rcases h.of_split with ⟨henter, inner, rest, hinner, rfl⟩
  exact ⟨front, t :: inner, rest, singleton_iff.2 ⟨henter, inner, hinner, rfl⟩, rfl⟩

/-- Each place that is met has a descent of its own, shorter than the whole. -/
theorem exists_below (h : Visits enter below xs ss) (ht : t ∈ ss) :
    ∃ inner, Visits enter below (below t) inner ∧ inner ⊆ ss ∧ inner.length < ss.length := by
  rcases h.exists_segment ht with ⟨front, segment, back, hsegment, rfl⟩
  rcases singleton_iff.1 hsegment with ⟨_, inner, hinner, rfl⟩
  refine ⟨inner, hinner, ?_, ?_⟩
  · intro y hy
    exact List.mem_append_right _ (List.mem_append_left _ (List.mem_cons_of_mem t hy))
  · simp only [List.length_append, List.length_cons]
    omega

theorem below_subset (h : Visits enter below xs ss) (ht : t ∈ ss) : below t ⊆ ss := by
  rcases h.exists_below ht with ⟨inner, hinner, hsub, _⟩
  exact List.Subset.trans hinner.roots_subset hsub

/-- A place is met because the descent starts there or because it is below another one. -/
theorem mem_cases (h : Visits enter below xs ss) (ht : t ∈ ss) :
    t ∈ xs ∨ ∃ p ∈ ss, t ∈ below p := by
  induction h with
  | nil => cases ht
  | @cons x xs inner outer _ _ _ ihInner ihOuter =>
      rcases List.mem_cons.1 ht with rfl | ht
      · exact .inl List.mem_cons_self
      · rcases List.mem_append.1 ht with ht | ht
        · rcases ihInner ht with hroot | ⟨p, hp, hbelow⟩
          · exact .inr ⟨x, List.mem_cons_self, hroot⟩
          · exact .inr ⟨p, List.mem_cons_of_mem _ (List.mem_append_left _ hp), hbelow⟩
        · rcases ihOuter ht with hroot | ⟨p, hp, hbelow⟩
          · exact .inl (List.mem_cons_of_mem _ hroot)
          · exact .inr ⟨p, List.mem_cons_of_mem _ (List.mem_append_right _ hp), hbelow⟩

/-- What holds where the descent starts and passes on downward holds of everything that is met. -/
theorem forall_mem {P : α → Prop} (h : Visits enter below xs ss) (hroots : ∀ y ∈ xs, P y)
    (hstep : ∀ p ∈ ss, P p → ∀ y ∈ below p, P y) : ∀ y ∈ ss, P y := by
  induction h with
  | nil =>
      intro y hy
      cases hy
  | @cons x xs inner outer _ _ _ ihInner ihOuter =>
      have hx : P x := hroots x List.mem_cons_self
      have hinner : ∀ y ∈ inner, P y :=
        ihInner (hstep x List.mem_cons_self hx) fun p hp =>
          hstep p (List.mem_cons_of_mem _ (List.mem_append_left _ hp))
      have houter : ∀ y ∈ outer, P y :=
        ihOuter (fun y hy => hroots y (List.mem_cons_of_mem _ hy)) fun p hp =>
          hstep p (List.mem_cons_of_mem _ (List.mem_append_right _ hp))
      intro y hy
      rcases List.mem_cons.1 hy with rfl | hy
      · exact hx
      · rcases List.mem_append.1 hy with hy | hy
        · exact hinner y hy
        · exact houter y hy

/-- What passes on upward, from all that is below a place to the place, holds of everything that is
met. -/
theorem forall_mem_of_below {P : α → Prop} (h : Visits enter below xs ss)
    (hstep : ∀ p ∈ ss, (∀ y ∈ below p, P y) → P p) : ∀ y ∈ ss, P y := by
  induction h with
  | nil =>
      intro y hy
      cases hy
  | @cons x xs inner outer _ hinner _ ihInner ihOuter =>
      have hbelow : ∀ y ∈ inner, P y := ihInner fun p hp =>
        hstep p (List.mem_cons_of_mem _ (List.mem_append_left _ hp))
      have hothers : ∀ y ∈ outer, P y := ihOuter fun p hp =>
        hstep p (List.mem_cons_of_mem _ (List.mem_append_right _ hp))
      intro y hy
      rcases List.mem_cons.1 hy with rfl | hy
      · exact hstep y List.mem_cons_self fun z hz => hbelow z (hinner.roots_subset hz)
      · rcases List.mem_append.1 hy with hy | hy
        · exact hbelow y hy
        · exact hothers y hy

/-- If `f` takes what is below a place to what is below its image, it takes the one descent to the
other. -/
theorem map {β : Type} {enter' : β → Prop} {below' : β → List β} {f : α → β}
    (h : Visits enter below xs ss) (henter : ∀ y ∈ ss, enter' (f y))
    (hbelow : ∀ y ∈ ss, below' (f y) = (below y).map f) :
    Visits enter' below' (xs.map f) (ss.map f) := by
  induction h with
  | nil => exact .nil
  | @cons x xs inner outer _ _ _ ihInner ihOuter =>
      rcases List.forall_mem_cons.1 henter with ⟨henterX, henterRest⟩
      rcases List.forall_mem_append.1 henterRest with ⟨henterInner, henterOuter⟩
      rcases List.forall_mem_cons.1 hbelow with ⟨hbelowX, hbelowRest⟩
      rcases List.forall_mem_append.1 hbelowRest with ⟨hbelowInner, hbelowOuter⟩
      have hinner := ihInner henterInner hbelowInner
      rw [← hbelowX] at hinner
      have hcons := Visits.cons henterX hinner (ihOuter henterOuter hbelowOuter)
      simpa using hcons

/-- Only the places that are met matter. -/
theorem congr {enter' : α → Prop} {below' : α → List α} (h : Visits enter below xs ss)
    (henter : ∀ y ∈ ss, enter' y) (hbelow : ∀ y ∈ ss, below' y = below y) :
    Visits enter' below' xs ss := by
  have hmap := h.map (f := id) henter fun y hy => (hbelow y hy).trans (List.map_id _).symm
  rwa [List.map_id, List.map_id] at hmap

/-- A descent that starts at places that another one meets stays within what that one meets. -/
theorem subset_of_roots_subset (h : Visits enter below xs ss) (h' : Visits enter below ys ts)
    (hroots : xs ⊆ ts) : ss ⊆ ts := by
  intro y hy
  have hall := h.forall_mem (P := fun z => z ∈ ts) (fun z hz => hroots hz)
    fun p _ hp z hz => h'.below_subset hp hz
  exact hall y hy

/-! ## No return, no repetition -/

/-- A descent never comes back to a place from below it: the descent from there would be shorter
than itself. -/
theorem not_mem_below {inner : List α} (h : Visits enter below (below t) inner) :
    t ∉ inner := by
  intro ht
  rcases h.exists_below ht with ⟨deep, hdeep, _, hlen⟩
  rw [hdeep.unique h] at hlen
  exact Nat.lt_irrefl _ hlen

/-- Nor does it come back to where it started from any other place that it meets. -/
theorem not_mem_segment {segment : List α} (h : Visits enter below [x] ss) (ht : t ∈ ss)
    (hne : t ≠ x) (hsegment : Visits enter below [t] segment) : x ∉ segment := by
  rcases singleton_iff.1 h with ⟨_, inner, hinner, rfl⟩
  have htInner : [t] ⊆ inner := by simpa [hne] using ht
  exact fun hx => hinner.not_mem_below (hsegment.subset_of_roots_subset hinner htInner hx)

/-- Two descents do not meet if neither comes to where the other one starts and no place of the one
is above a place that the other one is above, too. -/
theorem disjoint (h : Visits enter below ys ts) (h' : Visits enter below xs ss)
    (hroots : ∀ y ∈ ys, y ∉ ss) (hstart : ∀ p ∈ ts, ∀ y ∈ below p, y ∉ xs)
    (hinj : ∀ p ∈ ts, ∀ q ∈ ss, ∀ y, y ∈ below p → y ∈ below q → p = q) : ∀ y ∈ ts, y ∉ ss := by
  refine h.forall_mem hroots ?_
  intro p hp hpOut y hy hyIn
  -- What the other descent meets below `p` it has come to from `p`.
  rcases h'.mem_cases hyIn with hroot | ⟨q, hq, hbelow⟩
  · exact hstart p hp y hy hroot
  · exact hpOut ((hinj p hp q hq y hy hbelow) ▸ hq)

/-- If no place is below two others, or below any and also a start, then nothing is met twice. -/
theorem nodup (h : Visits enter below xs ss) (hroots : xs.Nodup)
    (hbelow : ∀ p ∈ ss, (below p).Nodup)
    (hinj : ∀ p ∈ ss, ∀ q ∈ ss, ∀ y, y ∈ below p → y ∈ below q → p = q)
    (hstart : ∀ p ∈ ss, ∀ y ∈ below p, y ∉ xs) : ss.Nodup := by
  induction h with
  | nil => exact List.nodup_nil
  | @cons x xs inner outer henter hinner houter ihInner ihOuter =>
      have hhere : ∀ {y}, y ∈ x :: inner → y ∈ x :: (inner ++ outer) := fun hy =>
        List.mem_append_left outer hy
      have hin : ∀ {y}, y ∈ inner → y ∈ x :: (inner ++ outer) := fun hy =>
        hhere (List.mem_cons_of_mem _ hy)
      have hout : ∀ {y}, y ∈ outer → y ∈ x :: (inner ++ outer) := fun hy =>
        List.mem_cons_of_mem _ (List.mem_append_right _ hy)
      rcases List.nodup_cons.1 hroots with ⟨hx, hxs⟩
      -- To meet `x` again the descent would have to start there twice, or come there from above.
      have hxInner : x ∉ inner := not_mem_below hinner
      have hxOuter : x ∉ outer := by
        intro hmem
        rcases houter.mem_cases hmem with hroot | ⟨p, hp, hbel⟩
        · exact hx hroot
        · exact hstart p (hout hp) x hbel List.mem_cons_self
      have hinnerNodup : inner.Nodup := by
        refine ihInner (hbelow x List.mem_cons_self) (fun p hp => hbelow p (hin hp))
          (fun p hp q hq => hinj p (hin hp) q (hin hq)) ?_
        intro p hp y hy hyx
        have hpx : p = x := hinj p (hin hp) x List.mem_cons_self y hy hyx
        exact hxInner (hpx ▸ hp)
      have houterNodup : outer.Nodup :=
        ihOuter hxs (fun p hp => hbelow p (hout hp))
          (fun p hp q hq => hinj p (hout hp) q (hout hq))
          (fun p hp y hy hmem => hstart p (hout hp) y hy (List.mem_cons_of_mem _ hmem))
      have hdisjoint : ∀ y ∈ x :: inner, y ∉ outer := by
        refine disjoint (singleton_iff.2 ⟨henter, inner, hinner, rfl⟩) houter ?_ ?_ ?_
        · intro y hy
          exact List.mem_singleton.1 hy ▸ hxOuter
        · intro p hp y hy hmem
          exact hstart p (hhere hp) y hy (List.mem_cons_of_mem _ hmem)
        · intro p hp q hq
          exact hinj p (hhere hp) q (hout hq)
      have hhereNodup : (x :: inner).Nodup := List.nodup_cons.2 ⟨hxInner, hinnerNodup⟩
      exact hhereNodup.append houterNodup fun y hy hyOut => hdisjoint y hy hyOut

/-! ## One place for another -/

/-- Where nothing is met but what `f` keeps, and only `m` is not kept, it does not matter that `f`
renames what is below. -/
theorem rename {enter' : α → Prop} {below' : α → List α} {f : α → α} {m : α}
    (h : Visits enter below xs ss) (hm : m ∉ ss) (hf : ∀ y, y ≠ m → f y = y)
    (henter : ∀ y ∈ ss, enter' y) (hbelow : ∀ y ∈ ss, below' y = (below y).map f) :
    Visits enter' below' (xs.map f) ss := by
  have hkept : ∀ {ys : List α}, ys ⊆ ss → ys.map f = ys := by
    intro ys hys
    refine (List.map_congr_left fun y hy => hf y ?_).trans (List.map_id ys)
    rintro rfl
    exact hm (hys hy)
  rw [hkept h.roots_subset]
  refine h.congr henter fun y hy => ?_
  rw [hbelow y hy, hkept (h.below_subset hy)]

/-- If `r` takes the place of `m`, the descent goes through what is met from `r` instead of what was
met from `m`, and before and after that as it did. -/
theorem exchange {enter' : α → Prop} {below' : α → List α} {f : α → α} {m r : α} {rs : List α}
    (h : Visits enter below xs ss) (hm : m ∈ ss) (hnodup : ss.Nodup)
    (hf : ∀ y, y ≠ m → f y = y) (hfm : f m = r) (hr : Visits enter' below' [r] rs)
    (henter : ∀ y ∈ ss, enter' y) (hbelow : ∀ y ∈ ss, below' y = (below y).map f) :
    ∃ front segment back, ss = front ++ (segment ++ back) ∧ Visits enter below [m] segment ∧
      Visits enter' below' (xs.map f) (front ++ (rs ++ back)) := by
  induction h with
  | nil => cases hm
  | @cons x xs inner outer henterM hinner houter ihInner ihOuter =>
      rcases List.nodup_cons.1 hnodup with ⟨hx, hrest⟩
      rcases List.nodup_append.1 hrest with ⟨hinnerNodup, houterNodup, hapart⟩
      rcases List.forall_mem_cons.1 henter with ⟨henterX, henterRest⟩
      rcases List.forall_mem_append.1 henterRest with ⟨henterInner, henterOuter⟩
      rcases List.forall_mem_cons.1 hbelow with ⟨hbelowX, hbelowRest⟩
      rcases List.forall_mem_append.1 hbelowRest with ⟨hbelowInner, hbelowOuter⟩
      -- `m` is where the descent starts, or is met below that place, or after it.
      rcases List.mem_cons.1 hm with rfl | hm
      · have hrenamed := houter.rename (fun hmem => hx (List.mem_append_right _ hmem)) hf
          henterOuter hbelowOuter
        refine ⟨[], m :: inner, outer, rfl, singleton_iff.2 ⟨henterM, inner, hinner, rfl⟩, ?_⟩
        rw [List.map_cons, hfm]
        exact hr.append hrenamed
      · have hxm : x ≠ m := by
          rintro rfl
          exact hx hm
        rw [List.map_cons, hf x hxm]
        rcases List.mem_append.1 hm with hm | hm
        · have hnot : m ∉ outer := fun hmem => hapart m hm m hmem rfl
          rcases ihInner hm hinnerNodup henterInner hbelowInner with
            ⟨front, segment, back, rfl, hsegment, hvisits⟩
          have hrenamed := houter.rename hnot hf henterOuter hbelowOuter
          refine ⟨x :: front, segment, back ++ outer, by simp, hsegment, ?_⟩
          have hcons := Visits.cons henterX (hbelowX ▸ hvisits) hrenamed
          simpa using hcons
        · have hnot : m ∉ inner := fun hmem => hapart m hmem m hm rfl
          rcases ihOuter hm houterNodup henterOuter hbelowOuter with
            ⟨front, segment, back, rfl, hsegment, hvisits⟩
          have hrenamed := hinner.rename hnot hf henterInner hbelowInner
          refine ⟨x :: (inner ++ front), segment, back, by simp, hsegment, ?_⟩
          have hcons := Visits.cons henterX (hbelowX ▸ hrenamed) hvisits
          simpa using hcons

end Visits

end KernelIR
