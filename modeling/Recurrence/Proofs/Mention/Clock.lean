import Recurrence.Mention.Clock
import Recurrence.Proofs.Clock

namespace Recurrence.Mention

/-! Whatever way it is found, the time of day that a text mentions is one that clocks show. -/

theorem clockOfPhrase?_inRange {captures : Captures ClockPart} {clock : Clock}
    (told : clockOfPhrase? captures = some clock) : clock.InRange := by
  simp only [clockOfPhrase?] at told
  split at told
  · cases told
  · rename_i minuteBound
    split at told
    · rename_i half _
      split at told
      · rename_i face
        cases told
        have := Nat.mod_lt (Text.digitsValue (captures.text .hour)) (show 0 < 12 by decide)
        refine ⟨⟨by dsimp only; omega, ?_⟩, by dsimp only; omega⟩
        dsimp only
        split <;> omega
      · cases told
    · split at told
      · cases told
        exact ⟨by dsimp only; omega, by dsimp only; omega⟩
      · cases told

theorem certainTime?_inRange {first second : Moment} {clock : Clock}
    (told : certainTime? first second = some clock) : clock.InRange := by
  have := first.hour_lt
  have := first.minute_lt
  unfold certainTime? at told
  split at told
  · cases told
    exact ⟨by dsimp only; omega, by dsimp only; omega⟩
  · cases told

theorem writtenTime?_inRange {text : List Char} {clock : Clock}
    (told : writtenTime? text = .ok (some clock)) : clock.InRange := by
  unfold writtenTime? at told
  split at told
  · rename_i found _
    obtain ⟨first, _, behind⟩ := Option.bind_eq_some_iff.mp (Except.ok.inj told)
    obtain ⟨second, _, agreed⟩ := Option.bind_eq_some_iff.mp behind
    exact certainTime?_inRange agreed
  · cases told
  · cases told

theorem time?_inRange {text : List Char} {clock : Clock} (told : time? text = .ok (some clock)) :
    clock.InRange := by
  unfold time? at told
  split at told
  · rename_i phrased found
    cases told
    obtain ⟨occurrence, _, read⟩ := List.exists_of_findSome?_eq_some found
    exact clockOfPhrase?_inRange read
  · exact writtenTime?_inRange told

end Recurrence.Mention
