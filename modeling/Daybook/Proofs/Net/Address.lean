import Daybook.Proofs.Net.Groups

/-! # Addresses and their texts

Every address and every address with a port is read from the text that it is written as. The zero groups
that the text of an IPv6 address leaves out come back in their place, and an address that is written with
points in it comes back as its groups. -/

namespace Daybook.Net

open Text

variable {text rest : List Char}

namespace IPv6

/-! ## Runs of zero groups -/

theorem take_zerosAhead (groups : List UInt16) :
    groups.take (zerosAhead groups) = List.replicate (zerosAhead groups) 0 := by
  have hprefix : groups.takeWhile (· = 0) = groups.take (zerosAhead groups) :=
    List.prefix_iff_eq_take.mp (List.takeWhile_prefix _)
  rw [← hprefix, List.eq_replicate_iff]
  exact ⟨rfl, fun group hgroup => by simpa using List.mem_takeWhile_imp hgroup⟩

/-- What is left out of the text of an address is a row of zero groups. -/
theorem eq_of_longestRun {groups : List UInt16} {start length : Nat}
    (h : longestRun groups = (start, length)) :
    groups = groups.take start ++ List.replicate length 0 ++ groups.drop (start + length) := by
  induction groups generalizing start length with
  | nil =>
    obtain ⟨rfl, rfl⟩ := Prod.mk.inj h
    rfl
  | cons group rest ih =>
    obtain ⟨start', length', hrest⟩ : ∃ s l, longestRun rest = (s, l) := ⟨_, _, rfl⟩
    simp only [longestRun, hrest] at h
    split at h
    · obtain ⟨rfl, rfl⟩ := Prod.mk.inj h
      rw [← take_zerosAhead, List.take_zero, List.nil_append, Nat.zero_add, List.take_append_drop]
    · obtain ⟨rfl, rfl⟩ := Prod.mk.inj h
      rw [Nat.succ_add, List.take_succ_cons, List.drop_succ_cons, List.cons_append, List.cons_append,
        ← ih hrest]

/-! ## Mapped addresses -/

theorem high_or_low (group : UInt16) :
    (group >>> 8).toUInt8.toUInt16 <<< 8 ||| group.toUInt8.toUInt16 = group := by
  have hlt := group.toNat_lt
  have height : (8 : UInt16).toNat % 16 = 8 := rfl
  have hhigh : (group.toNat >>> 8 % 2 ^ 8) <<< 8 % 2 ^ 16 = (group.toNat / 256) <<< 8 := by
    rw [Nat.shiftRight_eq_div_pow, Nat.shiftLeft_eq, Nat.shiftLeft_eq]
    omega
  apply UInt16.toNat_inj.mp
  rw [UInt16.toNat_or, UInt16.toNat_shiftLeft, UInt8.toNat_toUInt16, UInt8.toNat_toUInt16,
    UInt16.toNat_toUInt8, UInt16.toNat_toUInt8, UInt16.toNat_shiftRight, height, hhigh,
    ← Nat.shiftLeft_add_eq_or_of_lt (Nat.mod_lt _ (by decide)), Nat.shiftLeft_eq]
  omega

theorem groups_of_mapped? {groups : List UInt16} {ip : IPv4} (h : mapped? groups = some ip) :
    groups = List.replicate 5 0 ++ 0xFFFF :: ip.groups := by
  rw [mapped?.eq_def] at h
  split at h
  · next high low =>
    obtain rfl := Option.some.inj h
    simp only [IPv4.groups, high_or_low]
    rfl
  · contradiction

/-! ## Reading -/

theorem ofList?_toList (ip : IPv6) : ofList? ip.groups.toList = some ip := by
  rw [ofList?, dif_pos Vector.length_toList]
  rfl

/-- Where two colons stand, groups are filled in. -/
theorem takeIPv6?_of_gap {head tail : List UInt16} {dotted : Bool} {more : List Char} {ip : IPv6}
    (hhead : takeGroups true 8 text = (head, false, ':' :: ':' :: more)) (hlt : head.length < 8)
    (htail : takeGroups true (7 - head.length) more = (tail, dotted, rest))
    (hip : ip.groups.toList =
      head ++ List.replicate (8 - head.length - tail.length) 0 ++ tail) :
    takeIPv6? text = some (ip, rest) := by
  have hread := ofList?_toList ip
  rw [hip] at hread
  simp only [takeIPv6?, hhead, if_neg (Nat.ne_of_lt hlt), expect?_cons, htail, hread,
    Option.bind_eq_bind, Option.bind_some]
  rfl

theorem stops_colons (rest : List Char) : Stops (':' :: ':' :: rest) where
  head := forall_head?_cons (by decide) _
  colon := by
    intro tail htail
    obtain ⟨-, rfl⟩ := List.cons.inj htail
    exact forall_head?_cons (by decide) rest

theorem takeIPv6?_mapped {ip : IPv6} {v4 : IPv4} (h : mapped? ip.groups.toList = some v4)
    (hrest : Ends rest) : takeIPv6? ("::ffff:".toList ++ v4.text ++ rest) = some (ip, rest) := by
  have htext : "::ffff:".toList ++ v4.text ++ rest =
      ':' :: ':' :: (hexText 0xFFFF ++ ':' :: (v4.text ++ rest)) := by
    rw [List.append_assoc]
    rfl
  have hdotted : takeGroups false 6 (':' :: (v4.text ++ rest)) = (v4.groups, true, rest) := by
    simp [takeGroups, skipColon?, takeIPv4?_text v4 hrest.not_isDigit]
  have htail : takeGroups true 7 (hexText 0xFFFF ++ ':' :: (v4.text ++ rest)) =
      (0xFFFF :: v4.groups, true, rest) := by
    have hcolon : ∀ c ∈ (':' :: (v4.text ++ rest)).head?, ¬isHex c ∧ c ≠ '.' :=
      forall_head?_cons (by decide) _
    rw [takeGroups_hexText 6 rfl hcolon, hdotted]
  rw [htext]
  refine takeIPv6?_of_gap (takeGroups_stops true 8 (stops_colons _)) (by decide) htail ?_
  rw [groups_of_mapped? h]
  rfl

theorem takeIPv6?_joined (ip : IPv6) (hrest : Ends rest) :
    takeIPv6? (joined ip.groups.toList ++ rest) = some (ip, rest) := by
  have hlength : ip.groups.toList.length = 8 := Vector.length_toList
  have hread := takeGroups_joined (Nat.le_of_eq hlength) hrest.stops
  simp only [takeIPv6?, hread, hlength, if_true, ofList?_toList]
  rfl

theorem takeIPv6?_shortened {ip : IPv6} {start length : Nat} (hlong : 2 ≤ length)
    (hrun : longestRun ip.groups.toList = (start, length)) (hrest : Ends rest) :
    takeIPv6? (joined (ip.groups.toList.take start) ++ ':' :: ':' ::
      (joined (ip.groups.toList.drop (start + length)) ++ rest)) = some (ip, rest) := by
  have hlength : ip.groups.toList.length = 8 := Vector.length_toList
  have hgroups := eq_of_longestRun hrun
  have hsum := congrArg List.length hgroups
  simp only [List.length_append, List.length_replicate, List.length_take, List.length_drop,
    hlength] at hsum
  have hstart : (ip.groups.toList.take start).length = start := by
    rw [List.length_take, hlength]
    omega
  have hend : (ip.groups.toList.drop (start + length)).length = 8 - (start + length) := by
    rw [List.length_drop, hlength]
  have hbefore : (ip.groups.toList.take start).length ≤ 8 := by omega
  have hafter : (ip.groups.toList.drop (start + length)).length ≤
      7 - (ip.groups.toList.take start).length := by omega
  have hgap : 8 - (ip.groups.toList.take start).length -
      (ip.groups.toList.drop (start + length)).length = length := by omega
  refine takeIPv6?_of_gap (takeGroups_joined hbefore (stops_colons _)) (by omega)
    (takeGroups_joined hafter hrest.stops) ?_
  rw [hgap, ← hgroups]

theorem takeIPv6?_text (ip : IPv6) (hrest : Ends rest) :
    takeIPv6? (ip.text ++ rest) = some (ip, rest) := by
  rw [text]
  split
  · next v4 hmapped => exact takeIPv6?_mapped hmapped hrest
  next hmapped =>
  obtain ⟨start, length, hrun⟩ : ∃ s l, longestRun ip.groups.toList = (s, l) := ⟨_, _, rfl⟩
  simp only [hrun]
  split
  · next hlong =>
    rw [List.append_assoc]
    exact takeIPv6?_shortened hlong hrun hrest
  · exact takeIPv6?_joined ip hrest

end IPv6

/-! ## Ports and scopes -/

theorem takeDecimal?_digitsOf {n limit : Nat} (hn : n ≤ limit) (hrest : ∀ c ∈ rest.head?, ¬c.isDigit) :
    takeDecimal? limit (digitsOf n ++ rest) = some (n, rest) := by
  rw [takeDecimal?, (digits_digitsOf n).takeAllDigits? hrest]
  simp [hn]

theorem takePort?_digitsOf (port : UInt16) :
    takePort? (':' :: digitsOf port.toNat) = some (port, []) := by
  have hle : port.toNat ≤ 65535 := Nat.le_of_lt_succ port.toNat_lt
  have hnil : ∀ c ∈ ([] : List Char).head?, ¬c.isDigit := by simp
  have hread := takeDecimal?_digitsOf hle hnil
  rw [List.append_nil] at hread
  simp [takePort?, hread]

theorem takeScope?_text (scope : UInt32) (rest : List Char) :
    takeScope? ((if scope = 0 then [] else '%' :: digitsOf scope.toNat) ++ ']' :: rest) =
      some (scope, ']' :: rest) := by
  split
  · next h =>
    rw [h]
    rfl
  · have hle : scope.toNat ≤ 4294967295 := Nat.le_of_lt_succ scope.toNat_lt
    have hbracket : ∀ c ∈ (']' :: rest).head?, ¬c.isDigit := forall_head?_cons (by decide) rest
    simp [takeScope?, takeDecimal?_digitsOf hle hbracket]

theorem takeSocketV4?_text (ip : IPv4) (port : UInt16) :
    takeSocketV4? (Socket.v4 ip port).text = some (.v4 ip port, []) := by
  have hcolon : ∀ c ∈ (':' :: digitsOf port.toNat).head?, ¬c.isDigit := forall_head?_cons (by decide) _
  simp only [Socket.text, takeSocketV4?, takeIPv4?_text ip hcolon, takePort?_digitsOf,
    Option.bind_eq_bind, Option.bind_some]
  rfl

theorem takeSocketV6?_text (ip : IPv6) (scope : UInt32) (port : UInt16) :
    takeSocketV6? (Socket.v6 ip scope port).text = some (.v6 ip scope port, []) := by
  have hends : Ends ((if scope = 0 then [] else '%' :: digitsOf scope.toNat) ++
      ']' :: ':' :: digitsOf port.toNat) := by
    split
    · exact forall_head?_cons (by decide) _
    · exact forall_head?_cons (by decide) _
  simp only [Socket.text, List.append_assoc, List.cons_append, takeSocketV6?, expect?_cons,
    IPv6.takeIPv6?_text ip hends, takeScope?_text, takePort?_digitsOf, Option.bind_eq_bind,
    Option.bind_some]
  rfl

/-! ## Whole texts -/

theorem whole?_eq_some_iff {α : Type} {read : Option (α × List Char)} {value : α} :
    whole? read = some value ↔ read = some (value, []) := by
  rw [whole?.eq_def]
  split <;> simp_all

/-- What starts with an IPv4 address is no IPv6 address. -/
theorem takeIPv6?_eq_none {ip : IPv4} (h : takeIPv4? text = some (ip, rest)) :
    takeIPv6? text = none := by
  have hdotted : takeGroups true 8 text = (ip.groups, true, rest) := by
    simp [takeGroups, skipColon?, h]
  simp [takeIPv6?, hdotted, IPv4.groups]

theorem takeIPv4?_of_takeIPv6? {ip : IPv6} (h : takeIPv6? text = some (ip, rest)) :
    takeIPv4? text = none := by
  rw [Option.eq_none_iff_forall_ne_some]
  rintro ⟨v4, more⟩ hv4
  rw [takeIPv6?_eq_none hv4] at h
  contradiction

/-- No text is an address of both versions, so the order in which the two are tried does not matter. -/
theorem Ip.read?_eq_some_iff {ip : Ip} : Ip.read? text = some ip ↔
    (∃ v4, takeIPv4? text = some (v4, []) ∧ ip = .v4 v4) ∨
      ∃ v6, takeIPv6? text = some (v6, []) ∧ ip = .v6 v6 := by
  constructor
  · intro h
    rcases Option.or_eq_some_iff.mp h with h | ⟨-, h⟩
    · obtain ⟨v4, hv4, rfl⟩ := Option.map_eq_some_iff.mp h
      exact .inl ⟨v4, whole?_eq_some_iff.mp hv4, rfl⟩
    · obtain ⟨v6, hv6, rfl⟩ := Option.map_eq_some_iff.mp h
      exact .inr ⟨v6, whole?_eq_some_iff.mp hv6, rfl⟩
  · rintro (⟨v4, hv4, rfl⟩ | ⟨v6, hv6, rfl⟩)
    · rw [Ip.read?, hv4]
      rfl
    · rw [Ip.read?, takeIPv4?_of_takeIPv6? hv6, hv6]
      rfl

theorem Ip.read?_text (ip : Ip) : Ip.read? ip.text = some ip := by
  have hends : Ends [] := by simp [Ends]
  rw [Ip.read?_eq_some_iff]
  cases ip with
  | v4 ip =>
    have hread := takeIPv4?_text ip hends.not_isDigit
    rw [List.append_nil] at hread
    exact .inl ⟨ip, hread, rfl⟩
  | v6 ip =>
    have hread := ip.takeIPv6?_text hends
    rw [List.append_nil] at hread
    exact .inr ⟨ip, hread, rfl⟩

/-- An address starts with a digit of one of its parts, or with a colon. -/
theorem Ip.read?_eq_none (h : Ends text) : Ip.read? text = none := by
  have hcolon : expect? ':' text = none := by
    rw [Option.eq_none_iff_forall_ne_some]
    intro tail htail
    obtain rfl := expect?_eq_some_iff.mp htail
    exact (h ':' rfl).2.2 rfl
  have hv4 : takeIPv4? text = none := takeIPv4?_eq_none_of_head h.stops.head
  have hv6 : takeIPv6? text = none := by
    simp [takeIPv6?, takeGroups_stops true 8 h.stops, hcolon]
  rw [Ip.read?, hv4, hv6]
  rfl

theorem ends_bracket (rest : List Char) : Ends ('[' :: rest) :=
  forall_head?_cons (by decide) rest

theorem takeSocketV6?_eq_none (h : text.head? ≠ some '[') : takeSocketV6? text = none := by
  have hopen : expect? '[' text = none := by
    rw [Option.eq_none_iff_forall_ne_some]
    intro tail htail
    obtain rfl := expect?_eq_some_iff.mp htail
    exact h rfl
  rw [takeSocketV6?, hopen]
  rfl

theorem Socket.read?_text (socket : Socket) : Socket.read? socket.text = some socket := by
  cases socket with
  | v4 ip port =>
    rw [Socket.read?, takeSocketV4?_text]
    rfl
  | v6 ip scope port =>
    have hv4 : takeSocketV4? (Socket.v6 ip scope port).text = none := by
      have hip : takeIPv4? (Socket.v6 ip scope port).text = none :=
        takeIPv4?_eq_none_of_head (ends_bracket _).stops.head
      rw [takeSocketV4?, hip]
      rfl
    rw [Socket.read?, hv4, takeSocketV6?_text]
    rfl

/-- Only a text in brackets is an IPv6 address with a port. -/
theorem Socket.head?_of_read? {ip : IPv6} {scope : UInt32} {port : UInt16}
    (h : Socket.read? text = some (.v6 ip scope port)) : text.head? = some '[' := by
  by_contra hhead
  rcases Option.or_eq_some_iff.mp h with hv4 | ⟨-, hv6⟩
  · simp [whole?_eq_some_iff, takeSocketV4?, Option.bind_eq_some_iff] at hv4
  · rw [takeSocketV6?_eq_none hhead] at hv6
    contradiction

/-- An address alone is not an address with a port. -/
theorem Socket.read?_of_ip {ip : Ip} (h : Ip.read? text = some ip) : Socket.read? text = none := by
  have hhead : text.head? ≠ some '[' := by
    intro hhead
    obtain ⟨tail, rfl⟩ := List.head?_eq_some_iff.mp hhead
    rw [Ip.read?_eq_none (ends_bracket tail)] at h
    contradiction
  have hv4 : takeSocketV4? text = none := by
    rcases Ip.read?_eq_some_iff.mp h with ⟨v4, hread, -⟩ | ⟨v6, hread, -⟩
    · rw [takeSocketV4?, hread]
      rfl
    · rw [takeSocketV4?, takeIPv4?_of_takeIPv6? hread]
      rfl
  rw [Socket.read?, hv4, takeSocketV6?_eq_none hhead]
  rfl

/-- An address with a port starts like an address, or with a bracket. -/
theorem Socket.read?_eq_none (h : Ends text) (hhead : text.head? ≠ some '[') :
    Socket.read? text = none := by
  have hip : takeIPv4? text = none := takeIPv4?_eq_none_of_head h.stops.head
  rw [Socket.read?, takeSocketV4?, hip, takeSocketV6?_eq_none hhead]
  rfl

end Daybook.Net
