import WordMachine.Command.Session

/-!
# Actions of a session

An action that succeeds goes on with the next one (`bind_of_ok`), and nothing else succeeds
(`exists_of_bind_ok`). An action **is silent** if it leaves the standard output as it was: so does
all reading of files, and whatever is made of silent actions (`IsSilent.bind`).
-/

namespace WordMachine.Command

open Text

namespace Activity

variable {α β : Type} {x : Activity α} {f : α → Activity β} {s s' : Session} {a : α} {b : β}

/-- An action goes on when its first part succeeds. -/
theorem bind_of_ok (h : x s = .ok a s') (f : α → Activity β) : (x >>= f) s = f a s' := by
  simp [bind, EStateM.bind, h]

/-- When an action succeeds, so does its first part. -/
theorem exists_of_bind_ok (h : (x >>= f) s = .ok b s') :
    ∃ a s₁, x s = .ok a s₁ ∧ f a s₁ = .ok b s' := by
  cases hx : x s with
  | ok a s₁ => exact ⟨a, s₁, rfl, bind_of_ok hx f ▸ h⟩
  | error e s₁ =>
    simp only [bind, EStateM.bind, hx] at h
    cases h

/-- When the action succeeds, the standard output is what it was. -/
def IsSilent (x : Activity α) : Prop := ∀ ⦃s a s'⦄, x s = .ok a s' → s'.output = s.output

theorem IsSilent.pure (a : α) : IsSilent (pure a) := by
  rintro s _ _ ⟨⟩
  rfl

theorem IsSilent.throw (failure : Failure) : IsSilent (throw failure : Activity α) := nofun

theorem IsSilent.bind (hx : IsSilent x) (hf : ∀ a, IsSilent (f a)) : IsSilent (x >>= f) := by
  intro s b s' h
  obtain ⟨a, s₁, hfirst, hrest⟩ := exists_of_bind_ok h
  rw [hf a hrest, hx hfirst]

end Activity

namespace Session

open Activity

theorem isSilent_orFail {ε α : Type} (failure : ε → Failure) (result : Except ε α) :
    IsSilent (orFail failure result) := by
  cases result with
  | ok value => exact .pure value
  | error e => exact .throw (failure e)

private theorem isSilent_get : IsSilent (get : Activity Session) := by
  rintro s _ _ ⟨⟩
  rfl

private theorem isSilent_modify {change : Session → Session}
    (h : ∀ s, (change s).output = s.output) :
    IsSilent (modify change : Activity PUnit) := by
  rintro s _ _ ⟨⟩
  exact h s

private theorem isSilent_placeOf (path : String) : IsSilent (placeOf path) :=
  isSilent_get.bind fun _ => .pure _

private theorem isSilent_readFile (path : String) : IsSilent (readFile path) := by
  refine (isSilent_placeOf path).bind fun place => isSilent_get.bind fun s => ?_
  split
  · -- The standard input is read to its end, which is not written anywhere.
    exact IsSilent.bind (isSilent_modify (by intro s; rfl)) fun _ => .pure _
  · refine isSilent_get.bind fun s => ?_
    cases s.folder.read? path with
    | some bytes => exact .pure bytes
    | none => exact .throw _

private theorem isSilent_readText (path : String) : IsSilent (readText path) :=
  (isSilent_readFile path).bind fun bytes => by
    cases text? bytes with
    | some text => exact .pure text
    | none => exact .throw _

theorem isSilent_readSymbols (path? : Option String) : IsSilent (readSymbols path?) := by
  cases path? with
  | none => exact .pure _
  | some path => exact (isSilent_readText path).bind fun _ => isSilent_orFail _ _

theorem isSilent_readImage (path : String) : IsSilent (readImage path) :=
  (isSilent_readFile path).bind fun _ => isSilent_orFail _ _

end Session

end WordMachine.Command
