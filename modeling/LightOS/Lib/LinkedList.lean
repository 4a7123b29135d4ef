import Mathlib

/-!
# Singly linked lists in a heap

A heap gives every node a successor.  `Seg next h l t` says that following the
successors from `h` visits the nodes of `l` in order and then arrives at `t`; a
null-terminated list is a segment that ends at `none`.  The walk of a C loop
that keeps the previous node is `search`, and a write of the pointer that leads
to a place in the list (the head, or the link of the node before) is `redirect`.

* `search_spec` — where the walk stops.
* `seg_insert`, `seg_remove` — a redirected pointer puts a node in or takes it out.
-/

namespace LinkedList

variable {ι : Type} {next : ι → Option ι}

/-- From `h` through the nodes of `l` to `t`. -/
def Seg (next : ι → Option ι) : Option ι → List ι → Option ι → Prop
  | h, [], t => h = t
  | h, p :: l, t => h = some p ∧ Seg next (next p) l t

@[simp] theorem seg_nil {h t : Option ι} : Seg next h [] t ↔ h = t := Iff.rfl

@[simp] theorem seg_cons {h t : Option ι} {p : ι} {l : List ι} :
    Seg next h (p :: l) t ↔ h = some p ∧ Seg next (next p) l t := Iff.rfl

theorem seg_append {l₁ l₂ : List ι} {h t : Option ι} :
    Seg next h (l₁ ++ l₂) t ↔ ∃ m, Seg next h l₁ m ∧ Seg next m l₂ t := by
  induction l₁ generalizing h with
  | nil => simp
  | cons p l₁ ih =>
      rw [List.cons_append, seg_cons, ih]
      constructor
      · rintro ⟨hp, m, h₁, h₂⟩
        exact ⟨m, ⟨hp, h₁⟩, h₂⟩
      · rintro ⟨m, ⟨hp, h₁⟩, h₂⟩
        exact ⟨hp, m, h₁, h₂⟩

/-- A segment depends on the successors of its own nodes only. -/
theorem Seg.congr {next' : ι → Option ι} {l : List ι} {h t : Option ι} (hs : Seg next h l t)
    (heq : ∀ p ∈ l, next' p = next p) : Seg next' h l t := by
  induction l generalizing h with
  | nil => exact hs
  | cons p l ih =>
      obtain ⟨hp, hs⟩ := hs
      refine ⟨hp, ?_⟩
      rw [heq p (by simp)]
      exact ih hs fun q hq => heq q (List.mem_cons_of_mem _ hq)

/-- A list starts at its first node. -/
theorem Seg.head_eq {l : List ι} {h : Option ι} (hs : Seg next h l none) : h = l.head? := by
  cases l with
  | nil => exact hs
  | cons p l => exact hs.1

/-- There is only one list from a given start. -/
theorem Seg.unique {l l' : List ι} {h : Option ι} (hs : Seg next h l none)
    (hs' : Seg next h l' none) : l = l' := by
  induction l generalizing h l' with
  | nil =>
      cases hs
      cases l' with
      | nil => rfl
      | cons q l' => exact absurd hs'.1 (by simp)
  | cons p l ih =>
      obtain ⟨rfl, hs⟩ := hs
      cases l' with
      | nil => exact absurd hs' (by simp)
      | cons q l' =>
          obtain ⟨hq, hs'⟩ := hs'
          cases hq
          rw [ih hs hs']

/-- A list that ends visits no node twice. -/
theorem Seg.nodup {l : List ι} {h : Option ι} (hs : Seg next h l none) : l.Nodup := by
  induction l generalizing h with
  | nil => exact List.nodup_nil
  | cons p l ih =>
      obtain ⟨rfl, hs⟩ := hs
      refine List.nodup_cons.2 ⟨fun hmem => ?_, ih hs⟩
      -- from the second visit on the list would have to be the whole list again
      obtain ⟨l₁, l₂, rfl⟩ := List.append_of_mem hmem
      obtain ⟨m, -, hm, htail⟩ := seg_append.1 hs
      have hlen := congrArg List.length (hs.unique htail)
      simp at hlen
      omega

/-- The end of a segment is what its last node points to. -/
theorem Seg.last_next {l : List ι} {p : ι} {h t : Option ι} (hs : Seg next h (l ++ [p]) t) :
    next p = t := by
  obtain ⟨m, -, h₂⟩ := seg_append.1 hs
  exact h₂.2

/-- A node that points to itself is on no finite list that starts with it. -/
theorem not_seg_of_loop {p : ι} (hloop : next p = some p) (l : List ι) :
    ¬ Seg next (some p) l none := by
  induction l with
  | nil => simp
  | cons q l ih =>
      rintro ⟨hq, hs⟩
      cases hq
      rw [hloop] at hs
      exact ih hs

/-- What can be reached from the start of a list is on it. -/
theorem Seg.mem_of_seg {l l' : List ι} {p : ι} {h t : Option ι} (hs : Seg next h l none)
    (hs' : Seg next h l' t) (hp : p ∈ l') : p ∈ l := by
  induction l' generalizing h l with
  | nil => cases hp
  | cons q l' ih =>
      obtain ⟨rfl, hs'⟩ := hs'
      cases l with
      | nil => cases hs
      | cons r l =>
          obtain ⟨hr, hs⟩ := hs
          cases hr
          rcases List.mem_cons.1 hp with rfl | hp
          · exact List.mem_cons_self
          · exact List.mem_cons_of_mem _ (ih hs hs' hp)

/-- A list that starts nowhere is empty. -/
theorem Seg.eq_nil {l : List ι} (hs : Seg next none l none) : l = [] := hs.unique rfl

/-! ## Walking along a list -/

/-- Walk from `p`, remembering the node before, until `stop` holds; the first
argument bounds the number of nodes looked at. -/
def search (next : ι → Option ι) (stop : ι → Bool) :
    ℕ → Option ι → Option ι → Option (Option ι × Option ι)
  | 0, _, _ => none
  | _ + 1, prev, none => some (prev, none)
  | rounds + 1, prev, some p =>
      if stop p then some (prev, some p) else search next stop rounds (some p) (next p)

/-- **Where a walk stops.**  On a finite list the walk comes to the first node
that satisfies `stop`, with the node before it. -/
theorem search_spec (stop : ι → Bool) (prev : Option ι) {l : List ι} {p : Option ι} {rounds : ℕ}
    (hs : Seg next p l none) (hlen : l.length < rounds) :
    ∃ l₁ l₂, l = l₁ ++ l₂ ∧ (∀ q ∈ l₁, stop q = false) ∧ (∀ q ∈ l₂.head?, stop q = true) ∧
      search next stop rounds prev p = some (l₁.getLast?.or prev, l₂.head?) := by
  induction l generalizing p prev rounds with
  | nil =>
      obtain ⟨rounds, rfl⟩ : ∃ r, rounds = r + 1 := ⟨rounds - 1, by simp at hlen; omega⟩
      cases hs
      exact ⟨[], [], rfl, by simp, by simp, rfl⟩
  | cons q l ih =>
      obtain ⟨rounds, rfl⟩ : ∃ r, rounds = r + 1 := ⟨rounds - 1, by simp at hlen; omega⟩
      obtain ⟨rfl, hs⟩ := hs
      by_cases hq : stop q = true
      · exact ⟨[], q :: l, rfl, by simp, by simpa using hq, by simp [search, hq]⟩
      · obtain ⟨l₁, l₂, rfl, h₁, h₂, hrun⟩ :=
          ih (some q) hs (by simpa using hlen)
        refine ⟨q :: l₁, l₂, rfl, ?_, h₂, ?_⟩
        · intro r hr
          rcases List.mem_cons.1 hr with rfl | hr
          · exact Bool.eq_false_iff.2 hq
          · exact h₁ r hr
        · rw [search, if_neg hq, hrun]
          cases l₁ with
          | nil => simp
          | cons r l₁ => simp [List.getLast?_cons]

/-! ## Redirecting a pointer -/

/-- Write the link of `prev`, or the head if there is no node before. -/
def redirect [DecidableEq ι] (next : ι → Option ι) (head prev x : Option ι) :
    (ι → Option ι) × Option ι :=
  match prev with
  | none => (next, x)
  | some q => (Function.update next q x, head)

variable [DecidableEq ι]

/-- **Redirecting the exit of a segment.** -/
theorem seg_redirect {l : List ι} {h t : Option ι} (hnd : l.Nodup) (hs : Seg next h l t)
    (x : Option ι) :
    Seg (redirect next h l.getLast? x).1 (redirect next h l.getLast? x).2 l x := by
  rcases List.eq_nil_or_concat l with rfl | ⟨l, q, rfl⟩
  · simp [redirect]
  · rw [List.concat_eq_append] at hs hnd ⊢
    obtain ⟨m, h₁, hm, -⟩ := seg_append.1 hs
    have hq : q ∉ l := fun hmem => (List.nodup_append.1 hnd).2.2 q hmem q (by simp) rfl
    rw [List.getLast?_concat, seg_append]
    refine ⟨m, h₁.congr fun p hp => ?_, hm, ?_⟩
    · show Function.update next q x p = next p
      rw [Function.update_of_ne]
      rintro rfl
      exact hq hp
    · simp [redirect]

/-- Writing the link of a node does not disturb a segment it is not on. -/
theorem Seg.update {l : List ι} {h t : Option ι} {p : ι} (hs : Seg next h l t) (hp : p ∉ l)
    (x : Option ι) : Seg (Function.update next p x) h l t := by
  refine hs.congr fun q hq => ?_
  have hne : q ≠ p := fun heq => hp (heq ▸ hq)
  exact Function.update_of_ne hne _ _

/-- **A node is put before a list.** -/
theorem Seg.push {l : List ι} {h t : Option ι} {p : ι} (hs : Seg next h l t) (hp : p ∉ l) :
    Seg (Function.update next p h) (some p) (p :: l) t := by
  refine ⟨rfl, ?_⟩
  rw [Function.update_self]
  exact hs.update hp h

/-- Redirecting a pointer does not disturb a segment it is not on. -/
theorem Seg.redirect {l : List ι} {m t h prev : Option ι} (hs : Seg next m l t) (x : Option ι)
    (hprev : ∀ q ∈ prev, q ∉ l) : Seg (redirect next h prev x).1 m l t := by
  cases prev with
  | none => exact hs
  | some q =>
      apply hs.congr
      intro p hp
      show Function.update next q x p = next p
      rw [Function.update_of_ne]
      rintro rfl
      exact hprev p rfl hp

/-- **Inserting a node.**  The new node is pointed at the rest of the list, and
what pointed there is pointed at the new node. -/
theorem seg_insert {l₁ l₂ : List ι} {x : ι} {h : Option ι} (hnd : (l₁ ++ l₂).Nodup)
    (hs : Seg next h (l₁ ++ l₂) none) (hx : x ∉ l₁ ++ l₂) :
    Seg (LinkedList.redirect (Function.update next x l₂.head?) h l₁.getLast? (some x)).1
      (LinkedList.redirect (Function.update next x l₂.head?) h l₁.getLast? (some x)).2
      (l₁ ++ x :: l₂) none := by
  obtain ⟨m, h₁, h₂⟩ := seg_append.1 hs
  obtain ⟨hnd₁, -, hdis⟩ := List.nodup_append.1 hnd
  rw [List.mem_append, not_or] at hx
  have hfresh : ∀ p, p ≠ x → Function.update next x l₂.head? p = next p := fun p hp =>
    Function.update_of_ne hp _ _
  have h₁' : Seg (Function.update next x l₂.head?) h l₁ m :=
    h₁.congr fun p hp => hfresh p fun hpx => hx.1 (hpx ▸ hp)
  have h₂' : Seg (Function.update next x l₂.head?) (some x) (x :: l₂) none := by
    have htail := h₂.congr fun p hp => hfresh p fun hpx => hx.2 (hpx ▸ hp)
    rw [h₂.head_eq] at htail
    exact ⟨rfl, by rwa [Function.update_self]⟩
  rw [seg_append]
  refine ⟨some x, seg_redirect hnd₁ h₁' _, h₂'.redirect _ fun q hq hmem => ?_⟩
  have hq₁ : q ∈ l₁ := List.mem_of_getLast? hq
  rcases List.mem_cons.1 hmem with rfl | hmem
  · exact hx.1 hq₁
  · exact hdis q hq₁ q hmem rfl

/-- **Removing a node.**  What pointed at it is pointed past it. -/
theorem seg_remove {l₁ l₂ : List ι} {x : ι} {h : Option ι} (hnd : (l₁ ++ x :: l₂).Nodup)
    (hs : Seg next h (l₁ ++ x :: l₂) none) :
    Seg (LinkedList.redirect next h l₁.getLast? (next x)).1
      (LinkedList.redirect next h l₁.getLast? (next x)).2 (l₁ ++ l₂) none := by
  obtain ⟨m, h₁, -, h₂⟩ := seg_append.1 hs
  obtain ⟨hnd₁, -, hdis⟩ := List.nodup_append.1 hnd
  rw [seg_append]
  refine ⟨next x, seg_redirect hnd₁ h₁ _, h₂.redirect _ fun q hq hmem => ?_⟩
  exact hdis q (List.mem_of_getLast? hq) q (List.mem_cons_of_mem _ hmem) rfl

end LinkedList
