import FieldFlow.Model.Dependency

/-!
# Model/Order — an order in which every field follows what it reads

`resolveOrder` always takes the first declared field that is ready, so one model has one order.
Fields that never become ready lie on a cycle or behind one. `verifyOrder` checks an order that a
modeller gives against the same reads.
-/

namespace FieldFlow

/-- Takes out the first reader all of whose reads are done. -/
def takeReady? (done : List String) : List Reader → Option (Reader × List Reader)
  | [] => none
  | r :: rest =>
    if r.reads.all done.contains then some (r, rest)
    else (takeReady? done rest).map fun (found, others) => (found, r :: others)

theorem length_of_takeReady? {done : List String} :
    ∀ {waiting : List Reader} {r : Reader} {rest : List Reader},
      takeReady? done waiting = some (r, rest) → rest.length + 1 = waiting.length
  | [], _, _, h => by simp [takeReady?] at h
  | w :: ws, r, rest, h => by
      rw [takeReady?] at h
      split at h
      · simp only [Option.some.injEq, Prod.mk.injEq] at h
        simp [← h.2]
      · obtain ⟨⟨found, others⟩, hfound, heq⟩ := Option.map_eq_some_iff.1 h
        simp only [Prod.mk.injEq] at heq
        have := length_of_takeReady? hfound
        simp [← heq.2, this]

/-- Emits ready readers one by one; returns the names emitted and the readers left over. -/
def emitReady (done : List String) (waiting : List Reader) : List String × List Reader :=
  match h : takeReady? done waiting with
  | none => (done, waiting)
  | some (r, rest) =>
    have : rest.length < waiting.length := by
      have := length_of_takeReady? h
      omega
    emitReady (done ++ [r.name]) rest
termination_by waiting.length

variable {α : Type}

/-- **The evaluation order of a kind** — every computed field of the kind, each after all it reads;
or else the fields that can never be evaluated, in declaration order. -/
def resolveOrder (fields : FieldMap α) (kind : FieldKind) : Except (Error α) (List String) := do
  let readers ← readersOf fields kind
  match emitReady [] readers with
  | (order, []) => return order
  | (_, stuck) => throw (.cyclicDependency (stuck.map Reader.name))

/-- Checks the names of an explicit order one after another. -/
def checkListed (fields : FieldMap α) (seen : List String) : List String → Except (Error α) Unit
  | [] => .ok ()
  | name :: rest =>
    match fields.get? name with
    | none => .error (.unknownField name (some "explicit order"))
    | some field =>
      if field.kind ≠ .algebraic then .error (.malformedField name (.orderLists field.kind))
      else if seen.contains name then .error (.malformedField name .orderRepeats)
      else checkListed fields (seen ++ [name]) rest

/-- The first read that an order puts at or after its reader. -/
def violation? (order : List String) (readers : List Reader) : Option (String × String) :=
  readers.findSome? fun r =>
    (r.reads.find? fun read => order.idxOf r.name ≤ order.idxOf read).map fun read =>
      (r.name, read)

/-- **An explicit order is verified, never trusted** — it must list every algebraic field once, each
after the algebraic fields it reads. -/
def verifyOrder (fields : FieldMap α) (order : List String) : Except (Error α) (List String) := do
  checkListed fields [] order
  match fields.values.find? fun f => f.kind = .algebraic && !order.contains f.name with
  | some missing => throw (.malformedField missing.name .orderLacks)
  | none => pure ()
  let readers ← readersOf fields .algebraic
  match violation? order readers with
  | some (reader, read) => throw (.cyclicDependency [reader, read])
  | none => return order

end FieldFlow
