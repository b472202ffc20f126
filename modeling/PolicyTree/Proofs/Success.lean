import PolicyTree.Access.Error

namespace PolicyTree

variable {α β ε ε' : Type} {a : α} {b : β} {x : Except ε α}

@[simp] theorem bind_eq_ok_iff {f : α → Except ε β} :
    x >>= f = .ok b ↔ ∃ a, x = .ok a ∧ f a = .ok b := by
  cases x <;> simp [bind, Except.bind]

@[simp] theorem pure_eq_ok_iff {a' : α} : (pure a : Except ε α) = .ok a' ↔ a = a' := by
  simp [pure, Except.pure]

@[simp] theorem map_eq_ok_iff {f : α → β} : f <$> x = .ok b ↔ ∃ a, x = .ok a ∧ f a = b := by
  cases x <;> simp [Functor.map, Except.map]

theorem unit_eq_ok_iff {u : Unit} :
    (do return ((), ← x) : Except ε (Unit × α)) = .ok (u, a) ↔ x = .ok a := by
  simp

@[simp] theorem discard_eq_ok_iff {u : PUnit} : discard x = .ok u ↔ ∃ a, x = .ok a := by
  cases x <;> simp [discard, Functor.mapConst, Except.map]

@[simp] theorem throw_ne_ok {e : ε} : (throw e : Except ε α) ≠ .ok a := by
  simp [throw, throwThe, MonadExceptOf.throw]

@[simp] theorem mapError_eq_ok_iff {f : ε → ε'} : x.mapError f = .ok a ↔ x = .ok a := by
  cases x
  case error e => show Except.error (f e) = .ok a ↔ _; simp
  case ok b    => show Except.ok b = .ok a ↔ _; simp

theorem toOption_eq_some_iff : x.toOption = some a ↔ x = .ok a := by
  cases x <;> simp [Except.toOption]

@[simp] theorem liftM_path_eq_ok_iff {x : Except Path.Error α} :
    (liftM x : Except TreeError α) = .ok a ↔ x = .ok a :=
  mapError_eq_ok_iff

@[simp] theorem liftM_tree_eq_ok_iff {x : Except TreeError α} :
    (liftM x : Except AccessError α) = .ok a ↔ x = .ok a :=
  mapError_eq_ok_iff

end PolicyTree
