/-!
# What is read and what is reported

A reader gives a value or an error. It is known what it does when two conditions decide that, one on
the value and one on the error.

## Main definitions

* `Decides`: the conditions decide what is read and what is reported.

## Main results

* `Decides.of_cover`: conditions that lead to their results and leave nothing out decide.
* `Except.bind_eq_ok_iff`: what one reader after another gives.
-/

namespace HiveForum

variable {ε α β : Type} {read : Except ε α} {reads : α → Prop} {reports : ε → Prop}

/-- The conditions decide what is read and what is reported. -/
structure Decides (read : Except ε α) (reads : α → Prop) (reports : ε → Prop) : Prop where
  /-- A value is read exactly if it fulfils the one condition. -/
  ok_iff : ∀ value, read = .ok value ↔ reads value
  /-- An error is reported exactly if it fulfils the other. -/
  error_iff : ∀ error, read = .error error ↔ reports error

namespace Decides

/-- Conditions that lead to their results and leave nothing out decide. -/
theorem of_cover (hok : ∀ value, reads value → read = .ok value)
    (herror : ∀ error, reports error → read = .error error)
    (hcover : (∃ value, reads value) ∨ ∃ error, reports error) : Decides read reads reports := by
  refine ⟨fun value => ⟨fun h => ?_, hok value⟩, fun error => ⟨fun h => ?_, herror error⟩⟩
  · rcases hcover with ⟨other, hother⟩ | ⟨error, hreports⟩
    · obtain rfl := Except.ok.inj ((hok other hother).symm.trans h)
      exact hother
    · cases (herror error hreports).symm.trans h
  · rcases hcover with ⟨value, hreads⟩ | ⟨other, hother⟩
    · cases (hok value hreads).symm.trans h
    · obtain rfl := Except.error.inj ((herror other hother).symm.trans h)
      exact hother

theorem not_reports (h : Decides read reads reports) {value : α} (hvalue : reads value)
    (error : ε) : ¬reports error := by
  intro herror
  cases ((h.ok_iff value).2 hvalue).symm.trans ((h.error_iff error).2 herror)

theorem value_unique (h : Decides read reads reports) {value other : α} (hvalue : reads value)
    (hother : reads other) : value = other :=
  Except.ok.inj (((h.ok_iff value).2 hvalue).symm.trans ((h.ok_iff other).2 hother))

theorem error_unique (h : Decides read reads reports) {error other : ε} (herror : reports error)
    (hother : reports other) : error = other :=
  Except.error.inj (((h.error_iff error).2 herror).symm.trans ((h.error_iff other).2 hother))

end Decides

/-- What one reader gives after another: the one gives a value, and the other goes on with it. -/
theorem Except.bind_eq_ok_iff {next : α → Except ε β} {result : β} :
    (read >>= next) = .ok result ↔ ∃ value, read = .ok value ∧ next value = .ok result := by
  constructor
  · intro h
    cases read with
    | error error => cases h
    | ok value => exact ⟨value, rfl, h⟩
  · rintro ⟨value, rfl, h⟩
    exact h

end HiveForum
