/-!
# Runs that share some of their actions

Two runs of a system share their actions of one kind when they do these in the
same order. What else either run does, and where, is its own affair. To compare
such runs it is enough to know a relation between states that a shared action
keeps when both runs do it, and every other action keeps when one run does it
alone.

What is seen of a run is noted at its shared actions only, so the notes of two
such runs stand side by side.
-/
namespace Chiptune

variable {State Action Note : Type}

/-- Two runs with the same shared actions. -/
inductive Aligned (shared : Action → Bool) : List Action → List Action → Prop where
  | nil : Aligned shared [] []
  | left {action : Action} {xs ys : List Action} (hown : shared action = false)
    (h : Aligned shared xs ys) : Aligned shared (action :: xs) ys
  | right {action : Action} {xs ys : List Action} (hown : shared action = false)
    (h : Aligned shared xs ys) : Aligned shared xs (action :: ys)
  | both {action : Action} {xs ys : List Action} (hshared : shared action = true)
    (h : Aligned shared xs ys) : Aligned shared (action :: xs) (action :: ys)

theorem aligned_of_filter_eq_nil {shared : Action → Bool} {ys : List Action}
    (h : ys.filter shared = []) : Aligned shared [] ys := by
  induction ys with
  | nil => exact .nil
  | cons y ys ih =>
    have hy : shared y = false := by simpa using List.filter_eq_nil_iff.mp h y List.mem_cons_self
    rw [List.filter_cons_of_neg (by simp [hy])] at h
    exact .right hy (ih h)

theorem aligned_of_filter_eq {shared : Action → Bool} {xs ys : List Action}
    (h : xs.filter shared = ys.filter shared) : Aligned shared xs ys := by
  induction xs generalizing ys with
  | nil => exact aligned_of_filter_eq_nil h.symm
  | cons x xs ih =>
    cases hx : shared x with
    | false =>
      rw [List.filter_cons_of_neg (by simp [hx])] at h
      exact .left hx (ih h)
    | true =>
      rw [List.filter_cons_of_pos hx] at h
      -- The other run comes to the same action after some of its own.
      induction ys with
      | nil => contradiction
      | cons y ys ihy =>
        cases hy : shared y with
        | false =>
          rw [List.filter_cons_of_neg (by simp [hy])] at h
          exact .right hy (ihy h)
        | true =>
          rw [List.filter_cons_of_pos hy] at h
          obtain ⟨rfl, hrest⟩ := List.cons.inj h
          exact .both hx (ih hrest)

/-- What is noted of a run, one note for each shared action. A note is of the action and the state
that it is done in. -/
def notes (next : State → Action → State) (shared : Action → Bool) (note : State → Action → Note) :
    State → List Action → List Note
  | _, [] => []
  | state, action :: rest =>
    if shared action then note state action :: notes next shared note (next state action) rest
    else notes next shared note (next state action) rest

section

variable {next : State → Action → State} {shared : Action → Bool} {note : State → Action → Note}

theorem notes_of_own {state : State} {action : Action} (rest : List Action)
    (hown : shared action = false) :
    notes next shared note state (action :: rest) =
      notes next shared note (next state action) rest := by
  simp [notes, hown]

theorem notes_of_shared {state : State} {action : Action} (rest : List Action)
    (hshared : shared action = true) :
    notes next shared note state (action :: rest) =
      note state action :: notes next shared note (next state action) rest := by
  simp [notes, hshared]

/-- One run does an action of its own, and the states are related still. -/
structure KeptByOwn (next : State → Action → State) (shared : Action → Bool)
    (Related : State → State → Prop) (xs ys : List Action) : Prop where
  left : ∀ action ∈ xs, shared action = false →
    ∀ s t, Related s t → Related (next s action) t
  right : ∀ action ∈ ys, shared action = false →
    ∀ s t, Related s t → Related s (next t action)

/-- Aligned runs from related states make the same notes, as long as what the shared actions ask of
the two states has answers that agree. -/
theorem Aligned.notes_eq_of_agree {Asked : Type} (ask : State → Action → Asked)
    (Agree : Asked → Asked → Prop) {Related : State → State → Prop} {xs ys : List Action}
    (h : Aligned shared xs ys) (hown : KeptByOwn next shared Related xs ys)
    (hshared : ∀ action, shared action = true → ∀ s t, Related s t →
      Agree (ask s action) (ask t action) →
        note s action = note t action ∧ Related (next s action) (next t action))
    {s t : State} (hrelated : Related s t)
    (hagree : ∀ p ∈ (notes next shared ask s xs).zip (notes next shared ask t ys),
      Agree p.1 p.2) :
    notes next shared note s xs = notes next shared note t ys ∧
      Related (xs.foldl next s) (ys.foldl next t) := by
  induction h generalizing s t with
  | nil => exact ⟨rfl, hrelated⟩
  | left hx h ih =>
    rw [notes_of_own _ hx] at hagree ⊢
    have hrest : KeptByOwn next shared Related _ _ :=
      ⟨fun a ha => hown.left a (List.mem_cons_of_mem _ ha), hown.right⟩
    exact ih hrest (hown.left _ List.mem_cons_self hx s t hrelated) hagree
  | right hy h ih =>
    rw [notes_of_own _ hy] at hagree ⊢
    have hrest : KeptByOwn next shared Related _ _ :=
      ⟨hown.left, fun a ha => hown.right a (List.mem_cons_of_mem _ ha)⟩
    exact ih hrest (hown.right _ List.mem_cons_self hy s t hrelated) hagree
  | both hx h ih =>
    rw [notes_of_shared _ hx, notes_of_shared _ hx] at hagree
    rw [notes_of_shared _ hx, notes_of_shared _ hx]
    have hrest : KeptByOwn next shared Related _ _ :=
      ⟨fun a ha => hown.left a (List.mem_cons_of_mem _ ha),
        fun a ha => hown.right a (List.mem_cons_of_mem _ ha)⟩
    obtain ⟨hnote, hnext⟩ := hshared _ hx s t hrelated (hagree _ List.mem_cons_self)
    obtain ⟨hnotes, hend⟩ := ih hrest hnext fun p hp => hagree p (List.mem_cons_of_mem _ hp)
    exact ⟨by rw [hnote, hnotes], hend⟩

/-- Aligned runs from related states make the same notes and end in related states. -/
theorem Aligned.notes_eq {Related : State → State → Prop} {xs ys : List Action}
    (h : Aligned shared xs ys) (hown : KeptByOwn next shared Related xs ys)
    (hshared : ∀ action, shared action = true → ∀ s t, Related s t →
      note s action = note t action ∧ Related (next s action) (next t action))
    {s t : State} (hrelated : Related s t) :
    notes next shared note s xs = notes next shared note t ys ∧
      Related (xs.foldl next s) (ys.foldl next t) :=
  h.notes_eq_of_agree (fun _ _ => ()) (fun _ _ => True) hown
    (fun action hx s t hst _ => hshared action hx s t hst) hrelated fun _ _ => trivial

end
end Chiptune
