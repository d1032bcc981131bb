import Esni.Proofs.Numerals
import Esni.Timestamp

/-!
# Times on the wire

The seconds of a time are written in two's complement, which has room for all seconds of the
calendar, so they are read back; the nanoseconds are not written. A number is read as a time only
if its seconds are those of the calendar, and then it is the one number that the time is written
as.

## Main definitions

- `Timestamp.startOf` — the moment at the start of a second of the calendar

## Main statements

- `Timestamp.ofWire?_toWire` and `Timestamp.toWire_of_ofWire?` — reading and writing
- `Timestamp.ofWire?_toNat` — a number is read as its value in two's complement
-/

namespace Esni.Timestamp

def InCalendar (seconds : Int) : Prop := firstSecond ≤ seconds ∧ seconds ≤ lastSecond

instance (seconds : Int) : Decidable (InCalendar seconds) :=
  inferInstanceAs (Decidable (firstSecond ≤ seconds ∧ seconds ≤ lastSecond))

theorem zero_nanoseconds_lt : 0 < 2000000000 := by decide

/-- The moment at the start of a second of the calendar. -/
def startOf (seconds : Int) (h : InCalendar seconds) : Timestamp :=
  ⟨seconds, 0, h, zero_nanoseconds_lt⟩

/-- The number that the seconds of a time are written as. -/
def toWire (moment : Timestamp) : Nat := (moment.seconds % wireModulus).toNat

theorem wire_eq (moment : Timestamp) : moment.wire = Bytes.ofNat 8 moment.toWire := rfl

@[simp] theorem length_wire (moment : Timestamp) : moment.wire.length = 8 :=
  Bytes.length_ofNat _ _

theorem toWire_lt (moment : Timestamp) : moment.toWire < 256 ^ 8 := by
  unfold toWire wireModulus
  omega

/-- At the start of a second there is no leap second, so only the calendar is in the way. -/
theorem ofSeconds?_eq_some_iff {seconds : Int} {moment : Timestamp} :
    ofSeconds? seconds = some moment ↔ moment.seconds = seconds ∧ moment.nanoseconds = 0 := by
  unfold ofSeconds? of?
  constructor
  · intro h
    split at h
    · cases h
      exact ⟨rfl, rfl⟩
    · cases h
  · obtain ⟨seconds', nanoseconds, hrange, hnanos⟩ := moment
    rintro ⟨rfl, rfl⟩
    exact dif_pos ⟨hrange, hnanos, by omega⟩

theorem ofSeconds?_of_inCalendar {seconds : Int} (h : InCalendar seconds) :
    ofSeconds? seconds = some (startOf seconds h) :=
  ofSeconds?_eq_some_iff.2 ⟨rfl, rfl⟩

theorem ofSeconds?_of_not_inCalendar {seconds : Int} (h : ¬InCalendar seconds) :
    ofSeconds? seconds = none := by
  rw [Option.eq_none_iff_forall_ne_some]
  intro moment hmoment
  obtain ⟨hseconds, _⟩ := ofSeconds?_eq_some_iff.1 hmoment
  exact h (hseconds ▸ moment.inRange)

theorem ofWire?_eq_some_iff {value : Nat} {moment : Timestamp} :
    ofWire? value = some moment ↔
      moment.seconds = (value : Int).bmod wireModulus ∧ moment.nanoseconds = 0 := by
  rw [ofWire?, ofSeconds?_eq_some_iff]

theorem bmod_toWire (moment : Timestamp) :
    (moment.toWire : Int).bmod wireModulus = moment.seconds := by
  obtain ⟨hfirst, hlast⟩ := moment.inRange
  unfold firstSecond at hfirst
  unfold lastSecond at hlast
  have hcast : (moment.toWire : Int) = moment.seconds % wireModulus := by
    unfold toWire wireModulus
    omega
  rw [hcast, Int.emod_bmod, Int.bmod_eq_of_le] <;> (unfold wireModulus; omega)

/-- The number that a time is written as is read as the time without its nanoseconds. -/
theorem ofWire?_toWire (moment : Timestamp) :
    ofWire? moment.toWire = some moment.wholeSecond :=
  ofWire?_eq_some_iff.2 ⟨(bmod_toWire moment).symm, rfl⟩

theorem toWire_of_ofWire? {value : Nat} {moment : Timestamp} (hvalue : value < 256 ^ 8)
    (h : ofWire? value = some moment) : moment.toWire = value := by
  obtain ⟨hseconds, _⟩ := ofWire?_eq_some_iff.1 h
  unfold toWire
  rw [hseconds, Int.bmod_emod]
  unfold wireModulus
  omega

theorem wholeSecond_of_ofWire? {value : Nat} {moment : Timestamp}
    (h : ofWire? value = some moment) : moment.wholeSecond = moment := by
  obtain ⟨_, hnanos⟩ := ofWire?_eq_some_iff.1 h
  obtain ⟨seconds, nanoseconds, _, _⟩ := moment
  cases hnanos
  rfl

/-- Eight bytes are read as the seconds that they tell in two's complement. -/
theorem ofWire?_toNat (value : UInt64) : ofWire? value.toNat = ofSeconds? value.toInt64.toInt := by
  have hsigned : value.toInt64.toInt = (value.toNat : Int).bmod wireModulus :=
    BitVec.toInt_eq_toNat_bmod value.toBitVec
  rw [ofWire?, hsigned]

end Esni.Timestamp
