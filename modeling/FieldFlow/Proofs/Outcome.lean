import Mathlib.Data.List.Forall2

/-!
# Proofs/Outcome — what a chain of steps that may fail has done

A chain of steps succeeds only when every step of it does, and fails with the failure of the first
that does not. Read backwards, a result says what each step gave: `bind_eq_ok_iff` for two steps in
a row, `mapM_eq_ok_iff` and `forM_eq_ok_iff` for a step at every item of a list, `foldlM_induct` for
steps that hand a value on.
-/

namespace FieldFlow

universe u v w

variable {ε : Type u} {ε' : Type w} {α β γ : Type v}

/-! ## Two steps -/

theorem bind_eq_ok_iff {x : Except ε α} {f : α → Except ε β} {b : β} :
    x >>= f = .ok b ↔ ∃ a, x = .ok a ∧ f a = .ok b := by
  cases x <;> simp [bind, Except.bind]

theorem bind_eq_error_iff {x : Except ε α} {f : α → Except ε β} {e : ε} :
    x >>= f = .error e ↔ x = .error e ∨ ∃ a, x = .ok a ∧ f a = .error e := by
  cases x <;> simp [bind, Except.bind]

@[simp] theorem pure_eq_ok_iff {a b : α} : (pure a : Except ε α) = .ok b ↔ a = b := by
  simp [pure, Except.pure]

@[simp] theorem pure_ne_error {a : α} {e : ε} : (pure a : Except ε α) ≠ .error e := by
  simp [pure, Except.pure]

@[simp] theorem throw_ne_ok {a : α} {e : ε} : (throw e : Except ε α) ≠ .ok a := by
  simp [throw, throwThe, MonadExceptOf.throw]

@[simp] theorem throw_eq_error_iff {e e' : ε} : (throw e : Except ε α) = .error e' ↔ e = e' := by
  simp [throw, throwThe, MonadExceptOf.throw]

@[simp] theorem mapError_eq_ok_iff {x : Except ε α} {f : ε → ε'} {a : α} :
    x.mapError f = .ok a ↔ x = .ok a := by
  cases x <;> simp [Except.mapError]

@[simp] theorem mapError_eq_error_iff {x : Except ε α} {f : ε → ε'} {e : ε'} :
    x.mapError f = .error e ↔ ∃ e₀, x = .error e₀ ∧ f e₀ = e := by
  cases x <;> simp [Except.mapError]

/-- A step that is made only under a condition. -/
theorem ite_bind_eq_ok_iff {c : Prop} [Decidable c] {x : Except ε PUnit} {rest : Except ε α}
    {a : α} : (if c then x >>= fun _ => rest else rest) = .ok a ↔
      (c → x = .ok ⟨⟩) ∧ rest = .ok a := by
  by_cases hc : c
  · rw [if_pos hc, bind_eq_ok_iff]
    exact ⟨fun ⟨_, hx, h⟩ => ⟨fun _ => hx, h⟩, fun ⟨hx, h⟩ => ⟨_, hx hc, h⟩⟩
  · rw [if_neg hc]
    exact ⟨fun h => ⟨fun hc' => absurd hc' hc, h⟩, fun h => h.2⟩

/-- A check that is made before the rest. -/
theorem check_bind_eq_ok_iff {holds : Bool} {e : ε} {rest : Except ε α} {a : α} :
    (if (!holds) = true then throw e >>= fun _ : PUnit => rest else rest) = .ok a ↔
      holds = true ∧ rest = .ok a := by
  rw [ite_bind_eq_ok_iff]
  cases holds <;> simp

theorem discard_eq_ok_iff {x : Except ε α} {u : PUnit} :
    discard x = .ok u ↔ ∃ a, x = .ok a := by
  cases x <;> simp [discard, Functor.discard, Functor.mapConst, Except.map]

theorem toOption_eq_some_iff {x : Except ε α} {a : α} : x.toOption = some a ↔ x = .ok a := by
  cases x <;> simp [Except.toOption]

/-- A call that has succeeded has left something behind. -/
theorem exists_eq_ok_of_isSome {r : α × Except ε PUnit} (h : r.2.toOption.isSome = true) :
    ∃ a, r = (a, .ok ⟨⟩) := by
  obtain ⟨a, x⟩ := r
  cases x with
  | ok u => exact ⟨a, rfl⟩
  | error e => exact nomatch h

/-- A call that has failed has left something behind as well. -/
theorem exists_eq_error_of_isNone {r : α × Except ε PUnit} (h : r.2.toOption.isNone = true) :
    ∃ a e, r = (a, .error e) := by
  obtain ⟨a, x⟩ := r
  cases x with
  | ok u => exact nomatch h
  | error e => exact ⟨a, e, rfl⟩

/-! ## A step at every item of a list -/

/-- **A step at every item** succeeds when it does so at each of them. -/
theorem mapM_eq_ok_iff {f : α → Except ε β} :
    ∀ {xs : List α} {ys : List β}, xs.mapM f = .ok ys ↔ List.Forall₂ (fun x y => f x = .ok y) xs ys
  | [], ys => by
      rw [List.mapM_nil, pure_eq_ok_iff, List.forall₂_nil_left_iff, eq_comm]
  | x :: xs, ys => by
      rw [List.mapM_cons, bind_eq_ok_iff, List.forall₂_cons_left_iff]
      simp only [bind_eq_ok_iff, mapM_eq_ok_iff, pure_eq_ok_iff]
      exact ⟨fun ⟨y, hy, rest, hrest, heq⟩ => ⟨y, rest, hy, hrest, heq.symm⟩,
        fun ⟨y, rest, hy, hrest, heq⟩ => ⟨y, hy, rest, hrest, heq.symm⟩⟩

/-- …and fails with the failure of one of them. -/
theorem exists_of_mapM_eq_error {f : α → Except ε β} {e : ε} :
    ∀ {xs : List α}, xs.mapM f = .error e → ∃ x ∈ xs, f x = .error e
  | [], h => absurd h (by rw [List.mapM_nil]; exact pure_ne_error)
  | x :: xs, h => by
      rw [List.mapM_cons, bind_eq_error_iff] at h
      rcases h with h | ⟨y, -, h⟩
      · exact ⟨x, List.mem_cons_self, h⟩
      · rw [bind_eq_error_iff] at h
        rcases h with h | ⟨ys, -, h⟩
        · obtain ⟨x', hx', h'⟩ := exists_of_mapM_eq_error h
          exact ⟨x', List.mem_cons_of_mem _ hx', h'⟩
        · exact absurd h pure_ne_error

/-- Where the step succeeds at every item, it succeeds along the list. -/
theorem exists_mapM_eq_ok {f : α → Except ε β} {xs : List α} (h : ∀ x ∈ xs, ∃ y, f x = .ok y) :
    ∃ ys, xs.mapM f = .ok ys := by
  cases hxs : xs.mapM f with
  | ok ys => exact ⟨ys, rfl⟩
  | error e =>
    obtain ⟨x, hx, he⟩ := exists_of_mapM_eq_error hxs
    obtain ⟨y, hy⟩ := h x hx
    exact nomatch hy.symm.trans he

/-- Steps that do the same at every item do the same along the list. -/
theorem mapM_congr {f g : α → Except ε β} :
    ∀ {xs : List α}, (∀ x ∈ xs, f x = g x) → xs.mapM f = xs.mapM g
  | [], _ => rfl
  | x :: xs, h => by
      rw [List.forall_mem_cons] at h
      rw [List.mapM_cons, List.mapM_cons, h.1, mapM_congr h.2]

/-- A step that succeeds at every item gives its values in order. -/
theorem mapM_eq_ok_map {f : α → Except ε β} {g : α → β} {xs : List α}
    (h : ∀ x ∈ xs, f x = .ok (g x)) : xs.mapM f = .ok (xs.map g) := by
  rw [mapM_eq_ok_iff, List.forall₂_map_right_iff, List.forall₂_same]
  exact h

theorem filterAuxM_eq_ok {β : Type} {p : β → Except ε Bool} {q : β → Bool} :
    ∀ {xs acc : List β}, (∀ x ∈ xs, p x = .ok (q x)) →
      xs.filterAuxM p acc = .ok ((xs.filter q).reverse ++ acc)
  | [], _, _ => rfl
  | x :: xs, acc, h => by
      rw [List.forall_mem_cons] at h
      have hx : (x :: xs).filterAuxM p acc = xs.filterAuxM p (cond (q x) (x :: acc) acc) := by
        rw [List.filterAuxM, h.1]
        rfl
      rw [hx, filterAuxM_eq_ok h.2]
      cases hq : q x <;> simp [hq]

/-- A test that can be made at every item keeps the items that pass it. -/
theorem filterM_eq_ok {β : Type} {p : β → Except ε Bool} {q : β → Bool} {xs : List β}
    (h : ∀ x ∈ xs, p x = .ok (q x)) : xs.filterM p = .ok (xs.filter q) := by
  rw [List.filterM, filterAuxM_eq_ok h, List.append_nil]
  exact congrArg Except.ok (List.reverse_reverse _)

/-- Where a step can give one value only, the list of values is known. -/
theorem eq_map_of_mapM_eq_ok {f : α → Except ε β} {g : α → β} {xs : List α} {ys : List β}
    (hg : ∀ x y, f x = .ok y → g x = y) (h : xs.mapM f = .ok ys) : ys = xs.map g := by
  have hrel : List.Forall₂ (fun x y => g x = y) xs ys := (mapM_eq_ok_iff.1 h).imp hg
  have heq : List.Forall₂ Eq (xs.map g) ys := List.forall₂_map_left_iff.2 hrel
  rw [List.forall₂_eq_eq_eq] at heq
  exact heq.symm

/-- At every item the step has succeeded. -/
theorem exists_ok_of_mapM_eq_ok {f : α → Except ε β} :
    ∀ {xs : List α} {ys : List β}, xs.mapM f = .ok ys → ∀ x ∈ xs, ∃ y ∈ ys, f x = .ok y
  | [], _, _, _, hx => absurd hx List.not_mem_nil
  | x :: xs, ys, h, x', hx' => by
      rw [mapM_eq_ok_iff, List.forall₂_cons_left_iff] at h
      obtain ⟨y, rest, hy, hrest, rfl⟩ := h
      rcases List.mem_cons.1 hx' with rfl | hx'
      · exact ⟨y, List.mem_cons_self, hy⟩
      · obtain ⟨y', hmem, hy'⟩ := exists_ok_of_mapM_eq_ok (mapM_eq_ok_iff.2 hrest) x' hx'
        exact ⟨y', List.mem_cons_of_mem _ hmem, hy'⟩

/-- Every value was given at some item. -/
theorem exists_mem_of_mapM_eq_ok {f : α → Except ε β} {y : β} :
    ∀ {xs : List α} {ys : List β}, xs.mapM f = .ok ys → y ∈ ys → ∃ x ∈ xs, f x = .ok y
  | [], ys, h, hy => by
      rw [List.mapM_nil, pure_eq_ok_iff] at h
      exact absurd (h ▸ hy) List.not_mem_nil
  | x :: xs, ys, h, hy => by
      rw [mapM_eq_ok_iff, List.forall₂_cons_left_iff] at h
      obtain ⟨first, rest, hfirst, hrest, rfl⟩ := h
      rcases List.mem_cons.1 hy with rfl | hy
      · exact ⟨x, List.mem_cons_self, hfirst⟩
      · obtain ⟨x', hx', h'⟩ := exists_mem_of_mapM_eq_ok (mapM_eq_ok_iff.2 hrest) hy
        exact ⟨x', List.mem_cons_of_mem _ hx', h'⟩

theorem length_of_mapM_eq_ok {f : α → Except ε β} {xs : List α} {ys : List β}
    (h : xs.mapM f = .ok ys) : ys.length = xs.length :=
  (mapM_eq_ok_iff.1 h).length_eq.symm

/-- The item at a place gives the value at that place. -/
theorem getElem?_of_mapM_eq_ok {f : α → Except ε β} {x : α} :
    ∀ {xs : List α} {ys : List β} {i : Nat}, xs.mapM f = .ok ys → xs[i]? = some x →
      ∃ y, ys[i]? = some y ∧ f x = .ok y
  | [], _, _, _, hx => nomatch hx
  | first :: rest, ys, i, h, hx => by
      rw [mapM_eq_ok_iff, List.forall₂_cons_left_iff] at h
      obtain ⟨y, others, hy, hothers, rfl⟩ := h
      cases i with
      | zero =>
        rw [List.getElem?_cons_zero] at hx
        exact ⟨y, rfl, Option.some.inj hx ▸ hy⟩
      | succ i =>
        rw [List.getElem?_cons_succ] at hx ⊢
        exact getElem?_of_mapM_eq_ok (mapM_eq_ok_iff.2 hothers) hx

/-- Lists related item by item, and related on. -/
theorem forall₂_comp {R : α → β → Prop} {S : β → γ → Prop} {T : α → γ → Prop}
    (h : ∀ a b c, R a b → S b c → T a c) {as : List α} {bs : List β} {cs : List γ}
    (hr : List.Forall₂ R as bs) (hs : List.Forall₂ S bs cs) : List.Forall₂ T as cs := by
  induction hr generalizing cs with
  | nil =>
    rw [List.forall₂_nil_left_iff] at hs
    exact hs ▸ .nil
  | cons hab _ ih =>
    obtain ⟨c, rest, hbc, hrest, rfl⟩ := List.forall₂_cons_left_iff.1 hs
    exact .cons (h _ _ _ hab hbc) (ih hrest)

theorem forM_eq_ok_iff {f : α → Except ε PUnit} {u : PUnit} :
    ∀ {xs : List α}, xs.forM f = .ok u ↔ ∀ x ∈ xs, f x = .ok ⟨⟩
  | [] => ⟨fun _ _ hx => absurd hx List.not_mem_nil, fun _ => rfl⟩
  | x :: xs => by
      have ih : xs.forM f = .ok u ↔ ∀ x ∈ xs, f x = .ok ⟨⟩ := forM_eq_ok_iff
      change (f x >>= fun _ => xs.forM f) = .ok u ↔ _
      rw [bind_eq_ok_iff, List.forall_mem_cons, ← ih]
      exact ⟨fun ⟨_, hx, h⟩ => ⟨hx, h⟩, fun ⟨hx, h⟩ => ⟨_, hx, h⟩⟩

theorem array_forM_eq_ok_iff {f : α → Except ε PUnit} {u : PUnit} {xs : Array α} :
    xs.forM f = .ok u ↔ ∀ x ∈ xs, f x = .ok ⟨⟩ := by
  obtain ⟨xs⟩ := xs
  rw [Array.forM_eq_forM, List.forM_toArray]
  simp only [List.mem_toArray]
  exact forM_eq_ok_iff

/-! ## Steps that hand a value on -/

/-- **What every step keeps, all steps keep.** -/
theorem foldlM_induct {f : β → α → Except ε β} {motive : β → Prop} :
    ∀ {xs : List α} {b b' : β}, (∀ b, ∀ a ∈ xs, ∀ b', motive b → f b a = .ok b' → motive b') →
      motive b → xs.foldlM f b = .ok b' → motive b'
  | [], b, b', _, hb, h => by
      rw [List.foldlM_nil, pure_eq_ok_iff] at h
      exact h ▸ hb
  | x :: xs, b, b', step, hb, h => by
      rw [List.foldlM_cons, bind_eq_ok_iff] at h
      obtain ⟨next, hnext, hrest⟩ := h
      exact foldlM_induct (fun c a ha => step c a (List.mem_cons_of_mem _ ha))
        (step b x List.mem_cons_self next hb hnext) hrest

/-- Where no step can fail, all of them succeed. -/
theorem exists_foldlM_eq_ok {f : β → α → Except ε β} :
    ∀ {xs : List α}, (∀ a ∈ xs, ∀ b, ∃ b', f b a = .ok b') → ∀ b, ∃ b', xs.foldlM f b = .ok b'
  | [], _, b => ⟨b, rfl⟩
  | x :: xs, h, b => by
      rw [List.forall_mem_cons] at h
      obtain ⟨next, hnext⟩ := h.1 b
      obtain ⟨last, hlast⟩ := exists_foldlM_eq_ok h.2 next
      exact ⟨last, by rw [List.foldlM_cons, bind_eq_ok_iff]; exact ⟨next, hnext, hlast⟩⟩

/-- Every item has had its step. -/
theorem exists_ok_of_foldlM_eq_ok {f : β → α → Except ε β} :
    ∀ {xs : List α} {b b' : β}, xs.foldlM f b = .ok b' → ∀ x ∈ xs, ∃ c c', f c x = .ok c'
  | [], _, _, _, _, hx => absurd hx List.not_mem_nil
  | first :: rest, b, b', h, x, hx => by
      rw [List.foldlM_cons, bind_eq_ok_iff] at h
      obtain ⟨next, hnext, hrest⟩ := h
      rcases List.mem_cons.1 hx with rfl | hx
      · exact ⟨b, next, hnext⟩
      · exact exists_ok_of_foldlM_eq_ok hrest x hx

/-- Items at which the step does nothing may be left out. -/
theorem foldlM_filter {f : β → α → Except ε β} {p : α → Bool} :
    ∀ {xs : List α} {b : β}, (∀ a ∈ xs, p a = false → ∀ b, f b a = .ok b) →
      xs.foldlM f b = (xs.filter p).foldlM f b
  | [], _, _ => rfl
  | x :: xs, b, h => by
      rw [List.forall_mem_cons] at h
      rw [List.foldlM_cons, List.filter_cons]
      split
      · rw [List.foldlM_cons]
        exact congrArg (f b x >>= ·) (funext fun next => foldlM_filter h.2)
      · rename_i hp
        rw [h.1 (by simpa using hp), ← foldlM_filter h.2]
        rfl

/-- Where one item fails whatever came before it, and no other item fails otherwise, that is the
failure. -/
theorem foldlM_eq_error {f : β → α → Except ε β} {e : ε} {x : α} (hx : ∀ b, f b x = .error e) :
    ∀ {xs : List α} {b : β}, x ∈ xs →
      (∀ a ∈ xs, ∀ b, (∃ b', f b a = .ok b') ∨ f b a = .error e) → xs.foldlM f b = .error e
  | [], _, hmem, _ => absurd hmem List.not_mem_nil
  | first :: rest, b, hmem, h => by
      rw [List.forall_mem_cons] at h
      rw [List.foldlM_cons, bind_eq_error_iff]
      rcases h.1 b with ⟨next, hnext⟩ | hfirst
      · rcases List.mem_cons.1 hmem with rfl | hmem
        · exact .inl (hx b)
        · exact .inr ⟨next, hnext, foldlM_eq_error hx hmem h.2⟩
      · exact .inl hfirst

/-- A failure is the failure of the step at some item. -/
theorem exists_of_foldlM_eq_error {f : β → α → Except ε β} {e : ε} :
    ∀ {xs : List α} {b : β}, xs.foldlM f b = .error e → ∃ x ∈ xs, ∃ c, f c x = .error e
  | [], _, h => absurd h pure_ne_error
  | first :: rest, b, h => by
      rw [List.foldlM_cons, bind_eq_error_iff] at h
      rcases h with hfirst | ⟨next, -, hrest⟩
      · exact ⟨first, List.mem_cons_self, b, hfirst⟩
      · obtain ⟨x, hx, c, hc⟩ := exists_of_foldlM_eq_error hrest
        exact ⟨x, List.mem_cons_of_mem _ hx, c, hc⟩

end FieldFlow
