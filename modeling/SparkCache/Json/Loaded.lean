import SparkCache.Json.RoundTrip
import SparkCache.Pages.Layout

/-!
# Loaded values

The decoder refuses an integer that is too long for the encoder, so a value
that has been loaded can be dumped again.
-/
namespace SparkCache.Json

open Pages (bind_eq_ok)

theorem spanDigits_isDigit (text : List Char) : ∀ c ∈ (spanDigits text).1, c.isDigit = true := by
  induction text with
  | nil => simp [spanDigits]
  | cons c rest ih =>
      rw [spanDigits]
      by_cases hc : c.isDigit = true
      · simpa [hc] using ih
      · simp [hc]

theorem parseInteger_isDigit (text : List Char) :
    ∀ c ∈ (parseInteger text).1, c.isDigit = true := by
  unfold parseInteger
  split
  · intro c hc
    rw [List.mem_singleton.mp hc]
    rfl
  · exact spanDigits_isDigit _

theorem ofDecimal_lt {digits : List Char} (h : ∀ c ∈ digits, c.isDigit = true) :
    ofDecimal digits < 10 ^ digits.length := by
  have hfold : ∀ (cs : List Char) (n : ℕ), (∀ c ∈ cs, c.isDigit = true) →
      cs.foldl (fun n c => 10 * n + (c.toNat - 48)) n < (n + 1) * 10 ^ cs.length := by
    intro cs
    induction cs with
    | nil => intro n _; simp
    | cons c rest ih =>
        intro n hcs
        have hdigit : c.toNat - 48 ≤ 9 := by
          have hc := hcs c List.mem_cons_self
          have hle : c.toNat ≤ 57 := by
            simp only [Char.isDigit, Bool.and_eq_true, decide_eq_true_eq] at hc
            exact hc.2
          omega
        have hrest := ih (10 * n + (c.toNat - 48)) fun c hc => hcs c (List.mem_cons_of_mem _ hc)
        rw [List.foldl_cons, List.length_cons, pow_succ]
        refine hrest.trans_le ?_
        have hstep : 10 * n + (c.toNat - 48) + 1 ≤ (n + 1) * 10 := by omega
        calc (10 * n + (c.toNat - 48) + 1) * 10 ^ rest.length
            ≤ (n + 1) * 10 * 10 ^ rest.length := Nat.mul_le_mul_right _ hstep
          _ = (n + 1) * (10 ^ rest.length * 10) := by ring
  simpa [ofDecimal] using hfold digits 0 h

theorem parseUnsigned_printable {negative : Bool} {text rest : List Char} {v : Json}
    (h : parseUnsigned negative text = .ok (v, rest)) : v.printable = true := by
  unfold parseUnsigned at h
  simp only at h
  split at h
  · cases h
  · split at h
    · split at h
      · cases h
      · rename_i hlength
        cases h
        have hlt := ofDecimal_lt (parseInteger_isDigit text)
        have hle : 10 ^ (parseInteger text).1.length ≤ 10 ^ maxIntDigits :=
          Nat.pow_le_pow_right (by omega) (by omega)
        cases negative <;> simp [printable] <;> omega
    · cases h
      rfl

theorem parseAtom_printable {text rest : List Char} {v : Json}
    (h : parseAtom text = .ok (v, rest)) : v.printable = true := by
  unfold parseAtom at h
  split at h
  · cases h; rfl
  split at h
  · cases h; rfl
  split at h
  · cases h; rfl
  split at h
  · cases h; rfl
  split at h
  · cases h; rfl
  split at h
  · cases h; rfl
  split at h
  · exact parseUnsigned_printable h
  · exact parseUnsigned_printable h

theorem printable_object {fields : List (Str × Json)} (h : ∀ f ∈ fields, f.2.printable = true) :
    (object fields).printable = true := by
  rw [object, printable, printableFields_iff]
  intro f hf
  rcases mem_foldl_setField fields [] hf with hf | hf
  · exact h f hf
  · cases hf

/-- What the parsers return at some fuel can be printed. -/
structure ParsesPrintable (fuel : ℕ) : Prop where
  value : ∀ {text v rest}, parseValue fuel text = .ok (v, rest) → v.printable = true
  items : ∀ {text xs rest}, parseItems fuel text = .ok (xs, rest) → ∀ x ∈ xs, x.printable = true
  field : ∀ {text f rest}, parseField fuel text = .ok (f, rest) → f.2.printable = true
  fields : ∀ {text fs rest}, parseFields fuel text = .ok (fs, rest) → ∀ f ∈ fs, f.2.printable = true

namespace ParsesPrintable
variable {fuel : ℕ} (h : ParsesPrintable fuel)
include h

theorem value_succ {text rest : List Char} {v : Json}
    (hv : parseValue (fuel + 1) text = .ok (v, rest)) : v.printable = true := by
  unfold parseValue at hv
  split at hv
  · cases hv
  · rw [bind_eq_ok] at hv
    obtain ⟨_, -, hv⟩ := hv
    cases hv
    rfl
  · rename_i heq
    cases heq
    split at hv
    · cases hv
      rfl
    · simp only [bind_eq_ok] at hv
      obtain ⟨⟨x, more⟩, hx, ⟨xs, last⟩, hxs, hv⟩ := hv
      cases hv
      rw [printable, printableItems_iff]
      exact List.forall_mem_cons.mpr ⟨h.value hx, h.items hxs⟩
  · rename_i heq
    cases heq
    split at hv
    · cases hv
      rfl
    · simp only [bind_eq_ok] at hv
      obtain ⟨⟨f, more⟩, hf, ⟨fs, last⟩, hfs, hv⟩ := hv
      cases hv
      exact printable_object (List.forall_mem_cons.mpr ⟨h.field hf, h.fields hfs⟩)
  · exact parseAtom_printable hv

theorem items_succ {text rest : List Char} {xs : List Json}
    (hxs : parseItems (fuel + 1) text = .ok (xs, rest)) : ∀ x ∈ xs, x.printable = true := by
  unfold parseItems at hxs
  split at hxs
  · cases hxs
  · cases hxs
    simp
  · rename_i heq
    cases heq
    simp only [bind_eq_ok] at hxs
    obtain ⟨⟨y, more⟩, hy, ⟨ys, last⟩, hys, hxs⟩ := hxs
    cases hxs
    exact List.forall_mem_cons.mpr ⟨h.value hy, h.items hys⟩
  · cases hxs

theorem field_succ {text rest : List Char} {f : Str × Json}
    (hf : parseField (fuel + 1) text = .ok (f, rest)) : f.2.printable = true := by
  unfold parseField at hf
  split at hf
  · cases hf
  · rename_i heq
    cases heq
    simp only [bind_eq_ok] at hf
    obtain ⟨⟨key, more⟩, -, hf⟩ := hf
    split at hf
    · simp only [bind_eq_ok] at hf
      obtain ⟨⟨x, last⟩, hx, hf⟩ := hf
      cases hf
      exact h.value hx
    · cases hf
  · cases hf

theorem fields_succ {text rest : List Char} {fs : List (Str × Json)}
    (hfs : parseFields (fuel + 1) text = .ok (fs, rest)) : ∀ f ∈ fs, f.2.printable = true := by
  unfold parseFields at hfs
  split at hfs
  · cases hfs
  · cases hfs
    simp
  · rename_i heq
    cases heq
    simp only [bind_eq_ok] at hfs
    obtain ⟨⟨g, more⟩, hg, ⟨gs, last⟩, hgs, hfs⟩ := hfs
    cases hfs
    exact List.forall_mem_cons.mpr ⟨h.field hg, h.fields hgs⟩
  · cases hfs

end ParsesPrintable

theorem parsesPrintable (fuel : ℕ) : ParsesPrintable fuel := by
  induction fuel with
  | zero =>
      constructor
      · intro text v rest h
        rw [parseValue] at h
        cases h
      · intro text xs rest h
        rw [parseItems] at h
        cases h
      · intro text f rest h
        rw [parseField] at h
        cases h
      · intro text fs rest h
        rw [parseFields] at h
        cases h
  | succ fuel ih => exact ⟨ih.value_succ, ih.items_succ, ih.field_succ, ih.fields_succ⟩

/-- A value that has been loaded can be dumped. -/
theorem loads_printable {encoded : Bytes} {v : Json} (h : loads encoded = .ok v) :
    v.printable = true := by
  unfold loads at h
  split at h
  · cases h
  · unfold loadsText at h
    rw [bind_eq_ok] at h
    obtain ⟨⟨value, rest⟩, hvalue, h⟩ := h
    dsimp only at h
    split at h
    · cases h
      exact (parsesPrintable _).value hvalue
    · cases h

end SparkCache.Json
