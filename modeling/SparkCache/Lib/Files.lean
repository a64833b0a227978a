import SparkCache.Lib.Dictionary

/-!
# Programs over files

A small monad of programs that read and change files by path. A change counts
as one step; the file system may fail after any number of steps, and a program
that fails keeps what it changed before. `Moves R` says that a program, whether
it fails or not, changes the files only as the relation `R` allows.
-/
namespace Files

variable {π β ε α γ : Type} [DecidableEq π]

/-- The files by path. -/
abbrev Tree (π β : Type) [DecidableEq π] := Dictionary π β

/-- The files and, when the file system is going to fail, the number of changes before that. -/
structure World (π β : Type) [DecidableEq π] where
  files : Tree π β
  steps : Option ℕ := none

/-- A program with a result or an exception. -/
def FileM (π β ε : Type) [DecidableEq π] (α : Type) := World π β → Except ε α × World π β

namespace FileM

def andThen (x : FileM π β ε α) (f : α → FileM π β ε γ) : FileM π β ε γ := fun w =>
  match x w with
  | (.ok a, w') => f a w'
  | (.error e, w') => (.error e, w')

instance : Monad (FileM π β ε) where
  pure a w := (.ok a, w)
  bind := andThen

def raise (e : ε) : FileM π β ε α := fun w => (.error e, w)

/-- A computation that touches no file. -/
def lift (x : Except ε α) : FileM π β ε α := fun w => (x, w)

/-- What a function finds in the files. -/
def view (f : Tree π β → α) : FileM π β ε α := fun w => (.ok (f w.files), w)

def require (p : Prop) [Decidable p] (e : ε) : FileM π β ε Unit := if p then pure () else raise e

/-- A program that there is nothing to do for if it is done already. -/
def skipIf (done : Bool) (x : FileM π β ε Unit) : FileM π β ε Unit := if done then pure () else x

/-- One change of the files, unless the file system fails. -/
def change (fault : ε) (f : Tree π β → Tree π β) : FileM π β ε Unit := fun w =>
  match w.steps with
  | none => (.ok (), { w with files := f w.files })
  | some 0 => (.error fault, w)
  | some (n + 1) => (.ok (), { files := f w.files, steps := some n })

/-- A step that changes no file at its final path: a temporary file, or a durability barrier. -/
def barrier (fault : ε) : FileM π β ε Unit := change fault id

/-- A hard link to complete content; false if the path is taken. -/
def link (fault : ε) (path : π) (content : β) : FileM π β ε Bool := do
  if (← view fun files => (files.lookup path).isSome) then return false
  change fault fun files => files.insert path content
  return true

def replace (fault : ε) (path : π) (content : β) : FileM π β ε Unit :=
  change fault fun files => files.insert path content

/-- Remove a file; false if there is none. -/
def unlink (fault : ε) (path : π) : FileM π β ε Bool := do
  if (← view fun files => (files.lookup path).isSome) then
    change fault fun files => files.erase path
    return true
  return false

@[simp] theorem pure_apply (a : α) (w : World π β) :
    (pure a : FileM π β ε α) w = (.ok a, w) := rfl

@[simp] theorem raise_apply (e : ε) (w : World π β) :
    (raise e : FileM π β ε α) w = (.error e, w) := rfl

@[simp] theorem lift_apply (x : Except ε α) (w : World π β) :
    (lift x : FileM π β ε α) w = (x, w) := rfl

@[simp] theorem view_apply (f : Tree π β → α) (w : World π β) :
    (view f : FileM π β ε α) w = (.ok (f w.files), w) := rfl

theorem bind_apply (x : FileM π β ε α) (f : α → FileM π β ε γ) (w : World π β) :
    (x >>= f) w = andThen x f w := rfl

theorem bind_of_ok {x : FileM π β ε α} {w w' : World π β} {a : α} (h : x w = (.ok a, w'))
    (f : α → FileM π β ε γ) : (x >>= f) w = f a w' := by
  rw [bind_apply, andThen, h]

@[simp] theorem bind_eq_ok {x : FileM π β ε α} {f : α → FileM π β ε γ} {w w' : World π β} {b : γ} :
    (x >>= f) w = (.ok b, w') ↔ ∃ a w₁, x w = (.ok a, w₁) ∧ f a w₁ = (.ok b, w') := by
  rw [bind_apply, andThen]
  cases x w with
  | mk r w₁ =>
      cases r with
      | error e => simp
      | ok a => simp

@[simp] theorem require_eq_ok {p : Prop} [Decidable p] {e : ε} {u : Unit} {w w' : World π β} :
    (require p e : FileM π β ε Unit) w = (.ok u, w') ↔ p ∧ w' = w := by
  unfold require
  split
  · rename_i h
    simp [h, eq_comm]
  · rename_i h
    simp [h]

theorem require_of {p : Prop} [Decidable p] (h : p) (e : ε) (w : World π β) :
    (require p e : FileM π β ε Unit) w = (.ok (), w) := by
  rw [require, if_pos h]
  rfl

@[simp] theorem skipIf_eq_ok {done : Bool} {x : FileM π β ε Unit} {u : Unit} {w w' : World π β} :
    skipIf done x w = (.ok u, w') ↔
      (done = true ∧ w' = w) ∨ (done = false ∧ x w = (.ok u, w')) := by
  cases done with
  | true => simp [skipIf, eq_comm]
  | false => simp [skipIf]

theorem change_eq_ok {fault : ε} {f : Tree π β → Tree π β} {u : Unit} {w w' : World π β}
    (h : change fault f w = (.ok u, w')) : w'.files = f w.files := by
  unfold change at h
  split at h
  · cases h
    rfl
  · cases h
  · cases h
    rfl

theorem barrier_eq_ok {fault : ε} {u : Unit} {w w' : World π β}
    (h : barrier fault w = (.ok u, w')) : w'.files = w.files :=
  change_eq_ok h

theorem link_eq_ok {fault : ε} {path : π} {content : β} {linked : Bool} {w w' : World π β}
    (h : link fault path content w = (.ok linked, w')) :
    if linked then w.files.lookup path = none ∧ w'.files = w.files.insert path content
    else w.files.lookup path ≠ none ∧ w' = w := by
  unfold link at h
  simp only [bind_eq_ok, view_apply] at h
  obtain ⟨taken, w₁, heq, h⟩ := h
  cases heq
  split at h
  · rename_i htaken
    cases h
    simpa [Option.isSome_iff_ne_none] using htaken
  · rename_i htaken
    rw [bind_eq_ok] at h
    obtain ⟨u, w₂, hchange, h⟩ := h
    cases h
    exact ⟨by simpa using htaken, change_eq_ok hchange⟩

theorem replace_eq_ok {fault : ε} {path : π} {content : β} {u : Unit} {w w' : World π β}
    (h : replace fault path content w = (.ok u, w')) : w'.files = w.files.insert path content :=
  change_eq_ok h

/-! ## A file system that does not fail -/

@[simp] theorem change_sound (fault : ε) (f : Tree π β → Tree π β) (files : Tree π β) :
    change fault f ⟨files, none⟩ = (.ok (), ⟨f files, none⟩) := rfl

@[simp] theorem barrier_sound (fault : ε) (files : Tree π β) :
    barrier fault ⟨files, none⟩ = (.ok (), ⟨files, none⟩) := rfl

@[simp] theorem replace_sound (fault : ε) (path : π) (content : β) (files : Tree π β) :
    replace fault path content ⟨files, none⟩ = (.ok (), ⟨files.insert path content, none⟩) := rfl

theorem link_sound (fault : ε) (path : π) (content : β) (files : Tree π β) :
    link fault path content ⟨files, none⟩ =
      if (files.lookup path).isSome then (.ok false, ⟨files, none⟩)
      else (.ok true, ⟨files.insert path content, none⟩) := by
  unfold link
  rw [bind_apply, andThen, view_apply]
  show (if (files.lookup path).isSome = true then (pure false : FileM π β ε Bool) else _) _ = _
  split
  · rfl
  · rfl

/-! ## Frames -/

/-- However the program ends, the files change as the relation allows. -/
def Moves (R : Tree π β → Tree π β → Prop) (x : FileM π β ε α) : Prop :=
  ∀ w, R w.files (x w).2.files

section Moves
variable {R : Tree π β → Tree π β → Prop} (hrefl : ∀ f, R f f)
  (htrans : ∀ f g h, R f g → R g h → R f h)
include hrefl

theorem Moves.pure (a : α) : Moves R (pure a : FileM π β ε α) := fun w => hrefl w.files

theorem Moves.raise (e : ε) : Moves R (raise e : FileM π β ε α) := fun w => hrefl w.files

theorem Moves.lift (x : Except ε α) : Moves R (lift x : FileM π β ε α) := fun w => hrefl w.files

theorem Moves.view (f : Tree π β → α) : Moves R (view f : FileM π β ε α) := fun w => hrefl w.files

theorem Moves.require (p : Prop) [Decidable p] (e : ε) :
    Moves R (require p e : FileM π β ε Unit) := by
  intro w
  unfold FileM.require
  split
  · exact hrefl w.files
  · exact hrefl w.files

theorem Moves.skipIf (done : Bool) {x : FileM π β ε Unit} (h : Moves R x) :
    Moves R (skipIf done x) := by
  cases done with
  | true => exact Moves.pure hrefl ()
  | false => exact h

theorem Moves.barrier (fault : ε) : Moves R (barrier fault : FileM π β ε Unit) :=
  fun w => by
    unfold FileM.barrier FileM.change
    split
    · exact hrefl w.files
    · exact hrefl w.files
    · exact hrefl w.files

theorem Moves.change (fault : ε) {f : Tree π β → Tree π β} (h : ∀ files, R files (f files)) :
    Moves R (change fault f : FileM π β ε Unit) := by
  intro w
  unfold FileM.change
  split
  · exact h w.files
  · exact hrefl w.files
  · exact h w.files

theorem Moves.link (fault : ε) {path : π} {content : β}
    (h : ∀ files : Tree π β, files.lookup path = none → R files (files.insert path content)) :
    Moves R (link fault path content : FileM π β ε Bool) := by
  rintro ⟨files, steps⟩
  by_cases hpath : (files.lookup path).isSome = true
  · simpa [FileM.link, bind_apply, andThen, hpath] using hrefl files
  · have hnone : files.lookup path = none := by simpa using hpath
    cases steps with
    | none => simpa [FileM.link, bind_apply, andThen, hpath, FileM.change] using h files hnone
    | some n =>
        cases n with
        | zero => simpa [FileM.link, bind_apply, andThen, hpath, FileM.change] using hrefl files
        | succ n => simpa [FileM.link, bind_apply, andThen, hpath, FileM.change] using h files hnone

theorem Moves.lift_bind {x : Except ε α} {g : α → FileM π β ε γ} {w : World π β}
    (h : ∀ a, x = .ok a → Moves R (g a)) : R w.files ((FileM.lift x >>= g) w).2.files := by
  rw [bind_apply, andThen, lift_apply]
  cases x with
  | error e => exact hrefl w.files
  | ok a => exact h a rfl w

omit hrefl in
theorem Moves.view_bind {f : Tree π β → α} {g : α → FileM π β ε γ}
    (h : ∀ w, R w.files (g (f w.files) w).2.files) : Moves R (FileM.view f >>= g) :=
  h

omit hrefl in
include htrans in
theorem Moves.bind {x : FileM π β ε α} {f : α → FileM π β ε γ} (hx : Moves R x)
    (hf : ∀ a, Moves R (f a)) : Moves R (x >>= f) := by
  intro w
  rw [bind_apply, andThen]
  have h := hx w
  cases hw : x w with
  | mk r w₁ =>
      rw [hw] at h
      cases r with
      | error e => exact h
      | ok a => exact htrans _ _ _ h (hf a w₁)

end Moves

/-! ## Triples -/

/-- From files with `P` the program returns with `Q`, or it fails with `E`. -/
def Triple (P : Tree π β → Prop) (x : FileM π β ε α) (Q : α → Tree π β → Prop)
    (E : Tree π β → Prop) : Prop :=
  ∀ w, P w.files → match x w with
    | (.ok a, w') => Q a w'.files
    | (.error _, w') => E w'.files

section Triple
variable {P : Tree π β → Prop} {Q : α → Tree π β → Prop} {R : γ → Tree π β → Prop}
  {E : Tree π β → Prop} {x : FileM π β ε α}

theorem Triple.bind {f : α → FileM π β ε γ} (hx : Triple P x Q E) (hf : ∀ a, Triple (Q a) (f a) R E) :
    Triple P (x >>= f) R E := by
  intro w hw
  have h := hx w hw
  rw [bind_apply, andThen]
  cases hxw : x w with
  | mk r w' =>
      rw [hxw] at h
      cases r with
      | error e => exact h
      | ok a => exact hf a w' h

theorem Triple.weaken {E' : Tree π β → Prop} (h : Triple P x Q E) (herror : ∀ files, E files → E' files) :
    Triple P x Q E' := by
  intro w hw
  have hx := h w hw
  cases hxw : x w with
  | mk r w' =>
      rw [hxw] at hx
      cases r with
      | error e => exact herror _ hx
      | ok a => exact hx

theorem Triple.pure (a : α) (h : ∀ files, P files → Q a files) :
    Triple P (pure a : FileM π β ε α) Q E :=
  fun w hw => h w.files hw

theorem Triple.lift {y : Except ε α} (hok : ∀ a, y = .ok a → ∀ files, P files → Q a files)
    (herror : ∀ files, P files → E files) : Triple P (lift y : FileM π β ε α) Q E := by
  intro w hw
  rw [lift_apply]
  cases hy : y with
  | error e => exact herror w.files hw
  | ok a => exact hok a hy w.files hw

/-- What a program does when it returns, and what it keeps when it fails. -/
theorem Triple.of_moves {S : Tree π β → Tree π β → Prop} (hmoves : Moves S x)
    (hok : ∀ w a w', P w.files → x w = (.ok a, w') → Q a w'.files)
    (herror : ∀ before after, P before → S before after → E after) : Triple P x Q E := by
  intro w hw
  have h := hmoves w
  cases hxw : x w with
  | mk r w' =>
      rw [hxw] at h
      cases r with
      | error e => exact herror _ _ hw h
      | ok a => exact hok w a w' hw hxw

/-- What holds however the program ends. -/
theorem Triple.ends (h : Triple P x (fun _ => E) E) {w : World π β} (hw : P w.files) :
    E (x w).2.files := by
  have hends := h w hw
  cases hxw : x w with
  | mk r w' =>
      rw [hxw] at hends
      cases r with
      | error e => exact hends
      | ok a => exact hends

end Triple

end FileM
end Files
