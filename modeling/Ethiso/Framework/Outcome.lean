import Mathlib.Data.List.Basic

/-!
# Code that may throw and keeps what it did

A call either returns or throws; in both cases it leaves a state behind. What
was written before an exception is not rolled back, so an `Outcome` always
carries the state, and `bind` goes on from it only if the call returned.

A loop over a list stops at the first item that throws (`forEach`). Loops
compose (`forEach_append`), nested loops are one loop (`forEach_flatMap`), and
for items that only append to a list of outputs the whole loop does so too, up
to the item that throws (`Appends.forEach`).
-/

namespace Ethiso

/-- How a call ended, and the state it left behind. -/
inductive Outcome (σ : Type*) where
  | returned (s : σ)
  | threw (s : σ)
deriving DecidableEq, Repr

namespace Outcome

variable {σ τ : Type*}

/-- The state in which it ends. -/
def state : Outcome σ → σ
  | returned s => s
  | threw s => s

/-- Whether the call ended normally. -/
def isReturned : Outcome σ → Bool
  | returned _ => true
  | threw _ => false

/-- Goes on if nothing was thrown. -/
def bind (o : Outcome σ) (f : σ → Outcome σ) : Outcome σ :=
  match o with
  | returned s => f s
  | threw s => threw s

/-- Maps the state. -/
def map (f : σ → τ) : Outcome σ → Outcome τ
  | returned s => returned (f s)
  | threw s => threw (f s)

@[simp] theorem state_returned (s : σ) : (returned s).state = s := rfl
@[simp] theorem state_threw (s : σ) : (threw s).state = s := rfl
@[simp] theorem isReturned_returned (s : σ) : (returned s).isReturned = true := rfl
@[simp] theorem isReturned_threw (s : σ) : (threw s).isReturned = false := rfl
@[simp] theorem bind_returned (s : σ) (f : σ → Outcome σ) : (returned s).bind f = f s := rfl
@[simp] theorem bind_threw (s : σ) (f : σ → Outcome σ) : (threw s).bind f = threw s := rfl
@[simp] theorem map_returned (f : σ → τ) (s : σ) : (returned s).map f = returned (f s) := rfl

/-- Mapping does not change whether it returns. -/
theorem isReturned_map (o : Outcome σ) (f : σ → τ) : (o.map f).isReturned = o.isReturned := by
  cases o <;> rfl

theorem bind_assoc (o : Outcome σ) (f g : σ → Outcome σ) :
    (o.bind f).bind g = o.bind fun s => (f s).bind g := by
  cases o <;> rfl

/-- An outcome that returns is that of its state. -/
theorem isReturned_iff {o : Outcome σ} : o.isReturned = true ↔ o = returned o.state := by
  cases o <;> simp

/-- Two calls that end the same way, in states related by `R`. -/
inductive Rel (R : σ → τ → Prop) : Outcome σ → Outcome τ → Prop where
  | returned {s t} : R s t → Rel R (returned s) (returned t)
  | threw {s t} : R s t → Rel R (threw s) (threw t)

theorem Rel.state {R : σ → τ → Prop} {o : Outcome σ} {o' : Outcome τ} (h : Rel R o o') :
    R o.state o'.state := by
  cases h <;> assumption

theorem Rel.isReturned {R : σ → τ → Prop} {o : Outcome σ} {o' : Outcome τ} (h : Rel R o o') :
    o.isReturned = o'.isReturned := by
  cases h <;> rfl

/-- A weaker relation. -/
theorem Rel.imp {R R' : σ → τ → Prop} {o : Outcome σ} {o' : Outcome τ} (h : Rel R o o')
    (h_imp : ∀ s t, R s t → R' s t) : Rel R' o o' := by
  cases h with
  | returned h_s => exact .returned (h_imp _ _ h_s)
  | threw h_s => exact .threw (h_imp _ _ h_s)

/-- A fact about the first state may be added. -/
theorem Rel.and {R : σ → τ → Prop} {P : σ → Prop} {o : Outcome σ} {o' : Outcome τ}
    (h : Rel R o o') (h_state : P o.state) : Rel (fun s t => R s t ∧ P s) o o' := by
  cases h with
  | returned h_s => exact .returned ⟨h_s, h_state⟩
  | threw h_s => exact .threw ⟨h_s, h_state⟩

/-- Mapping keeps outcomes related. -/
theorem Rel.map {σ' τ' : Type*} {R : σ → τ → Prop} {R' : σ' → τ' → Prop} {o : Outcome σ}
    {o' : Outcome τ} {f : σ → σ'} {g : τ → τ'} (h : Rel R o o')
    (h_map : ∀ s t, R s t → R' (f s) (g t)) : Rel R' (o.map f) (o'.map g) := by
  cases h with
  | returned h_s => exact .returned (h_map _ _ h_s)
  | threw h_s => exact .threw (h_map _ _ h_s)

/-- Sequencing keeps outcomes related. -/
theorem Rel.bind {R : σ → τ → Prop} {o : Outcome σ} {o' : Outcome τ} {f : σ → Outcome σ}
    {g : τ → Outcome τ} (h : Rel R o o') (h_next : ∀ s t, R s t → Rel R (f s) (g t)) :
    Rel R (o.bind f) (o'.bind g) := by
  cases h with
  | returned h_s => exact h_next _ _ h_s
  | threw h_s => exact .threw h_s

end Outcome

open Outcome

/-! ### Loops -/

section Loop

variable {σ β : Type*}

/-- The loop over a list, which stops at the first item that throws. -/
def forEach (f : σ → β → Outcome σ) : List β → σ → Outcome σ
  | [], s => returned s
  | x :: xs, s => (f s x).bind (forEach f xs)

variable {f : σ → β → Outcome σ}

@[simp] theorem forEach_nil (s : σ) : forEach f [] s = returned s := rfl

@[simp] theorem forEach_cons (x : β) (xs : List β) (s : σ) :
    forEach f (x :: xs) s = (f s x).bind (forEach f xs) := rfl

/-- First these rounds and then those. -/
theorem forEach_append (xs ys : List β) (s : σ) :
    forEach f (xs ++ ys) s = (forEach f xs s).bind (forEach f ys) := by
  induction xs generalizing s with
  | nil => rfl
  | cons x xs ih =>
    -- both sides begin with `x`; what follows is equal by induction
    rw [List.cons_append, forEach_cons, forEach_cons, bind_assoc]
    congr 1
    exact funext ih

/-- Rounds over mapped elements. -/
theorem forEach_map {γ : Type*} (g : γ → β) (xs : List γ) (s : σ) :
    forEach f (xs.map g) s = forEach (fun s x => f s (g x)) xs s := by
  induction xs generalizing s with
  | nil => rfl
  | cons x xs ih =>
    rw [List.map_cons, forEach_cons, forEach_cons]
    congr 1
    exact funext ih

/-- Rounds that do the same. -/
theorem forEach_congr {g : σ → β → Outcome σ} {xs : List β} (h : ∀ x ∈ xs, ∀ s, f s x = g s x)
    (s : σ) : forEach f xs s = forEach g xs s := by
  induction xs generalizing s with
  | nil => rfl
  | cons x xs ih =>
    rw [forEach_cons, forEach_cons, h x (by simp)]
    congr 1
    exact funext (ih fun y h_y => h y (by simp [h_y]))

/-- A loop whose body is a loop is one loop over all the items. -/
theorem forEach_flatMap {γ : Type*} (g : γ → List β) (xs : List γ) (s : σ) :
    forEach (fun s x => forEach f (g x) s) xs s = forEach f (xs.flatMap g) s := by
  induction xs generalizing s with
  | nil => rfl
  | cons x xs ih =>
    rw [List.flatMap_cons, forEach_append, forEach_cons]
    congr 1
    exact funext ih

/-- A loop throws what one of its items throws. -/
theorem forEach_threw {xs : List β} {s t : σ} (h : forEach f xs s = threw t) :
    ∃ x ∈ xs, ∃ s', f s' x = threw t := by
  induction xs generalizing s with
  | nil => cases h
  | cons x xs ih =>
    rw [forEach_cons] at h
    cases h_x : f s x with
    -- the first item returns, so a later one throws
    | returned s' =>
      rw [h_x, bind_returned] at h
      obtain ⟨y, h_y, h_threw⟩ := ih h
      exact ⟨y, List.mem_cons_of_mem x h_y, h_threw⟩
    | threw s' =>
      rw [h_x, bind_threw] at h
      exact ⟨x, List.mem_cons_self, s, h_x.trans h⟩

/-- Two loops, of which the second has only some of the items: what both have keeps
the states related and ends the same way in both, and what only the first has
returns and keeps them related. -/
theorem forEach_filter_rel {τ : Type*} {R : σ → τ → Prop} {g : τ → β → Outcome τ}
    {p : β → Bool} {xs : List β}
    (h_kept : ∀ x ∈ xs, p x = true → ∀ s t, R s t → Rel R (f s x) (g t x))
    (h_dropped : ∀ x ∈ xs, p x = false → ∀ s t, R s t → ∃ s', f s x = returned s' ∧ R s' t)
    {s : σ} {t : τ} (h : R s t) : Rel R (forEach f xs s) (forEach g (xs.filter p) t) := by
  induction xs generalizing s t with
  | nil => exact .returned h
  | cons x xs ih =>
    have ih' : ∀ {s : σ} {t : τ}, R s t → Rel R (forEach f xs s) (forEach g (xs.filter p) t) :=
      ih (fun y h_y => h_kept y (by simp [h_y])) (fun y h_y => h_dropped y (by simp [h_y]))
    rw [forEach_cons]
    -- an item that both loops have goes the same way in both; one that only the
    -- first has returns, and the second stays where it is
    cases h_x : p x with
    | true =>
      rw [List.filter_cons_of_pos h_x, forEach_cons]
      exact (h_kept x (by simp) h_x s t h).bind fun s' t' h' => ih' h'
    | false =>
      obtain ⟨s', h_s', h'⟩ := h_dropped x (by simp) h_x s t h
      rw [List.filter_cons_of_neg (by simp [h_x]), h_s', bind_returned]
      exact ih' h'

/-- Related states stay related through a loop whose body relates them. -/
theorem forEach_rel {τ : Type*} {R : σ → τ → Prop} {g : τ → β → Outcome τ} {xs : List β}
    (h_body : ∀ x ∈ xs, ∀ s t, R s t → Rel R (f s x) (g t x)) {s : σ} {t : τ} (h : R s t) :
    Rel R (forEach f xs s) (forEach g xs t) := by
  -- a filter that drops nothing
  have h_all := forEach_filter_rel (p := fun _ => true)
    (fun x h_x _ => h_body x h_x) (fun _ _ h_false => nomatch h_false) h
  rwa [List.filter_true] at h_all

/-- A loop whose items all return and keep a property does so too. -/
theorem forEach_returned {P : σ → Prop} {xs : List β}
    (h_body : ∀ x ∈ xs, ∀ s, P s → ∃ s', f s x = returned s' ∧ P s') {s : σ} (h : P s) :
    ∃ s', forEach f xs s = returned s' ∧ P s' := by
  -- compared with the empty loop, which has dropped all items
  have h_none := forEach_filter_rel (f := f) (g := fun (t : Unit) (_ : β) => returned t)
    (R := fun s _ => P s) (p := fun _ => false) (t := ())
    (fun _ _ h_false => nomatch h_false) (fun x h_x _ s _ => h_body x h_x s) h
  rw [List.filter_false, forEach_nil] at h_none
  generalize forEach f xs s = o at h_none ⊢
  cases h_none with
  | returned h_s => exact ⟨_, rfl, h_s⟩

end Loop

/-! ### Loops that only append outputs -/

section Appends

variable {ω β : Type*}

/-- The call appends `out` to the outputs `s`, or throws after a part of it. -/
def Appends (out s : List ω) (o : Outcome (List ω)) : Prop :=
  o = returned (s ++ out) ∨ ∃ p, p <+: out ∧ o = threw (s ++ p)

variable {out s : List ω} {o : Outcome (List ω)}

theorem Appends.of_state (h : o.state = s ++ out) : Appends out s o := by
  cases o with
  | returned t => exact Or.inl (congrArg returned h)
  | threw t => exact Or.inr ⟨out, List.prefix_rfl, congrArg threw h⟩

/-- If it returns, all is appended. -/
theorem Appends.eq_of_isReturned (h : Appends out s o) (h_ret : o.isReturned = true) :
    o = returned (s ++ out) := by
  rcases h with h | ⟨p, -, rfl⟩
  · exact h
  · cases h_ret

/-- Whether it returns or throws, the outputs are extended by a part of `out`. -/
theorem Appends.state (h : Appends out s o) : ∃ p, p <+: out ∧ o.state = s ++ p := by
  rcases h with rfl | ⟨p, h_p, rfl⟩
  · exact ⟨out, List.prefix_rfl, rfl⟩
  · exact ⟨p, h_p, rfl⟩

/-- First this is appended and then that. -/
theorem Appends.bind {out' : List ω} {f : List ω → Outcome (List ω)} (h : Appends out s o)
    (h_next : Appends out' (s ++ out) (f (s ++ out))) : Appends (out ++ out') s (o.bind f) := by
  rcases h with rfl | ⟨p, h_p, rfl⟩
  -- the first call returns: what the second makes comes after all of `out`
  · rcases h_next with h_f | ⟨p, h_p, h_f⟩
    · exact Or.inl (by rw [bind_returned, h_f, List.append_assoc])
    · refine Or.inr ⟨out ++ p, (List.prefix_append_right_inj out).mpr h_p, ?_⟩
      rw [bind_returned, h_f, List.append_assoc]
  · exact Or.inr ⟨p, h_p.trans (List.prefix_append out out'), rfl⟩

/-- The first output may be written before the call. -/
theorem Appends.cons {x : ω} (h : Appends out (s ++ [x]) o) : Appends (x :: out) s o := by
  rcases h with rfl | ⟨p, h_p, rfl⟩
  · exact Or.inl (by simp)
  · exact Or.inr ⟨x :: p, List.cons_prefix_cons.mpr ⟨rfl, h_p⟩, by simp⟩

/-- A loop over items that only append outputs does so too. -/
theorem Appends.forEach {f : List ω → β → Outcome (List ω)} {g : β → List ω} {xs : List β}
    (h : ∀ x ∈ xs, ∀ s, Appends (g x) s (f s x)) (s : List ω) :
    Appends (xs.flatMap g) s (forEach f xs s) := by
  induction xs generalizing s with
  | nil => exact Or.inl (by simp)
  | cons x xs ih =>
    rw [List.flatMap_cons, forEach_cons]
    exact (h x (by simp) s).bind (ih (fun y h_y => h y (by simp [h_y])) _)

end Appends

/-! ### Items that make their output even if they throw -/

section Makes

variable {ω β : Type*} {f : List ω → β → Outcome (List ω)} {g : β → List ω}

/-- The item `x` appends `g x`, and then returns or throws. -/
def Makes (f : List ω → β → Outcome (List ω)) (g : β → List ω) : Prop :=
  ∀ s x, (f s x).state = s ++ g x

/-- A loop that returns has appended what each round makes. -/
theorem Makes.forEach_returned (h : Makes f g) {xs : List β} {s t : List ω}
    (h_ret : forEach f xs s = returned t) : t = s ++ xs.flatMap g := by
  have h_app := Appends.forEach (fun x (_ : x ∈ xs) s => Appends.of_state (h s x)) s
  rw [h_ret] at h_app
  exact returned.inj (h_app.eq_of_isReturned rfl)

/-- A loop that throws has made the outputs up to an item that throws. -/
theorem Makes.forEach_threw (h : Makes f g) {xs : List β} {s t : List ω}
    (h_threw : forEach f xs s = threw t) :
    ∃ before x after, xs = before ++ x :: after ∧
      (f (s ++ before.flatMap g) x).isReturned = false ∧ t = s ++ (before ++ [x]).flatMap g := by
  induction xs generalizing s with
  | nil => cases h_threw
  | cons x xs ih =>
    rw [forEach_cons] at h_threw
    have h_state := h s x
    cases h_x : f s x with
    -- it is the first item that throws
    | threw s' =>
      rw [h_x, bind_threw] at h_threw
      rw [h_x, h_threw, state_threw] at h_state
      refine ⟨[], x, xs, rfl, ?_, ?_⟩
      · rw [List.flatMap_nil, List.append_nil, h_x, isReturned_threw]
      · rw [List.nil_append, List.flatMap_singleton, h_state]
    -- a later one throws, after the output of the first
    | returned s' =>
      rw [h_x, bind_returned] at h_threw
      rw [h_x, state_returned] at h_state
      subst h_state
      obtain ⟨before, y, after, rfl, h_y, rfl⟩ := ih h_threw
      refine ⟨x :: before, y, after, rfl, ?_, ?_⟩
      · rw [List.flatMap_cons, ← List.append_assoc]
        exact h_y
      · rw [List.cons_append, List.flatMap_cons, List.append_assoc]

/-- If an item throws after the outputs of those before it, the loop gets no further. -/
theorem Makes.forEach_stops (h : Makes f g) {before after : List β} {x : β} {s : List ω}
    (h_x : (f (s ++ before.flatMap g) x).isReturned = false) :
    ∃ done, done <+: before ++ [x] ∧
      (forEach f (before ++ x :: after) s).state = s ++ done.flatMap g := by
  rw [forEach_append]
  cases h_before : forEach f before s with
  -- the loop reaches `x`, and ends there
  | returned t =>
    obtain rfl := h.forEach_returned h_before
    have h_state := h (s ++ before.flatMap g) x
    refine ⟨before ++ [x], List.prefix_rfl, ?_⟩
    rw [bind_returned, forEach_cons]
    cases h_t : f (s ++ before.flatMap g) x with
    | returned t => simp [h_t] at h_x
    | threw t =>
      rw [h_t, state_threw] at h_state
      rw [bind_threw, state_threw, h_state]
      simp
  -- it has ended before
  | threw t =>
    obtain ⟨first, y, rest, rfl, -, rfl⟩ := h.forEach_threw h_before
    exact ⟨first ++ [y], ⟨rest ++ [x], by simp⟩, rfl⟩

end Makes

end Ethiso
