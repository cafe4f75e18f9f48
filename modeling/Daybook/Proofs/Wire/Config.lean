import Daybook.Proofs.Wire.RoundTrip
import Daybook.Wire.Config

/-! # The configuration on the wire

The configuration comes back from the object that it is written as, with all its sections. -/

namespace Daybook

open Json

variable {ε : Type}

theorem Matcher.inverts_decode : (decode (ε := ε)).Inverts toJson 1 := by
  intro m room hroom
  have hpos : room ≠ 0 := by omega
  simp [toJson, reading, memberReadings, decode, Decoder.members, member, Decoder.once,
    Decoder.string, hpos]
  rfl

theorem Config.inverts_decodeStorage : (decodeStorage (ε := ε)).Inverts storageJson 1 := by
  intro location room hroom
  have hpos : room ≠ 0 := by omega
  cases location with
  | none =>
    simp only [storageJson, reading, memberReadings, decodeStorage, Decoder.members, if_neg hpos]
    rfl
  | some path =>
    simp only [storageJson, reading, memberReadings, decodeStorage, Decoder.members, if_neg hpos]
    rfl

theorem Config.inverts_decode : (decode (ε := ε)).Inverts toJson 3 := by
  intro c room hroom
  have hpos : room ≠ 0 := by omega
  have hblacklist := (Decoder.inverts_string (ε := ε)).list c.blacklist (room - 1) (by omega)
  have hmatchers := (Matcher.inverts_decode (ε := ε)).list c.matchers (room - 1) (by omega)
  have hlocation := inverts_decodeStorage (ε := ε) c.location (room - 1) (by omega)
  simp only [reading] at hblacklist hmatchers
  simp [toJson, reading, memberReadings, decode, Decoder.members, member, Decoder.once,
    hpos, hblacklist, hmatchers, hlocation]
  rfl

end Daybook
