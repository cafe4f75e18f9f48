import Daybook.Bridge.Listen
import Daybook.Proofs.Http.Query
import Daybook.Proofs.Net.Address
import Mathlib.Data.Set.Subsingleton

/-! # Places to listen

A place to listen is written in one of four forms, and colons stand in most of them. No text is in two of
the forms, so it does not matter which of them is tried first, and every address is read from the text
that it is written as. -/

namespace Daybook.Bridge

open Net Text

variable {text : List Char}

/-! ## The name of the host -/

theorem localPort?_eq_some_iff {port : List Char} :
    localPort? text = some port ↔ text = "localhost:".toList ++ port ∧ ':' ∉ port := by
  constructor
  · intro h
    simp only [localPort?, Option.ite_none_right_eq_some, Option.some.injEq] at h
    obtain ⟨⟨hword, hcolon⟩, rfl⟩ := h
    refine ⟨?_, hcolon⟩
    conv_lhs => rw [← List.take_append_drop "localhost:".toList.length text, hword]
  · rintro ⟨rfl, hcolon⟩
    simp only [localPort?, List.take_left, List.drop_left, hcolon, not_false_eq_true, and_true, if_true]

/-- The first letter of the name belongs to no address. -/
theorem ends_localhost (h : "localhost".toList <+: text) : Ends text := by
  obtain ⟨rest, rfl⟩ := h
  exact forall_head?_cons (by decide) _

theorem ip_read?_localhost (h : "localhost".toList <+: text) : Ip.read? text = none :=
  Ip.read?_eq_none (ends_localhost h)

theorem socket_read?_localhost (h : "localhost".toList <+: text) : Socket.read? text = none := by
  refine Socket.read?_eq_none (ends_localhost h) ?_
  obtain ⟨rest, rfl⟩ := h
  exact fun hhead => absurd (Option.some.inj hhead) (by decide)

/-! ## Forms -/

/-- The forms in which a place to listen is written. -/
inductive Form
  | socket
  | address
  | host
  | hostAndPort

namespace Form

/-- The text is in the form. What stands after `localhost:` need not be a port. -/
def Fits (text : List Char) : Form → Prop
  | socket => ∃ socket, Socket.read? text = some socket
  | address => ∃ ip, Ip.read? text = some ip
  | host => text = "localhost".toList
  | hostAndPort => ∃ port, localPort? text = some port

theorem Fits.localhost_of_host (h : Fits text host) : "localhost".toList <+: text :=
  ⟨[], by rw [List.append_nil, show text = "localhost".toList from h]⟩

theorem Fits.localhost_of_hostAndPort (h : Fits text hostAndPort) : "localhost".toList <+: text := by
  obtain ⟨port, hport⟩ := h
  exact ⟨':' :: port, (localPort?_eq_some_iff.mp hport).1.symm⟩

theorem not_socket_of_localhost (h : "localhost".toList <+: text) : ¬Fits text socket := by
  rintro ⟨socket, hsocket⟩
  rw [socket_read?_localhost h] at hsocket
  contradiction

theorem not_address_of_localhost (h : "localhost".toList <+: text) : ¬Fits text address := by
  rintro ⟨ip, hip⟩
  rw [ip_read?_localhost h] at hip
  contradiction

theorem Fits.not_socket_of_address (h : Fits text address) : ¬Fits text socket := by
  obtain ⟨ip, hip⟩ := h
  rintro ⟨socket, hsocket⟩
  rw [Socket.read?_of_ip hip] at hsocket
  contradiction

theorem Fits.not_hostAndPort_of_host (h : Fits text host) : ¬Fits text hostAndPort := by
  rintro ⟨port, hport⟩
  rw [show text = "localhost".toList from h] at hport
  contradiction

theorem Fits.unique {f g : Form} (hf : Fits text f) (hg : Fits text g) : f = g :=
  match f, g, hf, hg with
  | socket, socket, _, _ | address, address, _, _ => rfl
  | host, host, _, _ | hostAndPort, hostAndPort, _, _ => rfl
  | socket, address, hs, ha | address, socket, ha, hs => absurd hs ha.not_socket_of_address
  | socket, host, hs, hl | host, socket, hl, hs =>
    absurd hs (not_socket_of_localhost hl.localhost_of_host)
  | socket, hostAndPort, hs, hl | hostAndPort, socket, hl, hs =>
    absurd hs (not_socket_of_localhost hl.localhost_of_hostAndPort)
  | address, host, ha, hl | host, address, hl, ha =>
    absurd ha (not_address_of_localhost hl.localhost_of_host)
  | address, hostAndPort, ha, hl | hostAndPort, address, hl, ha =>
    absurd ha (not_address_of_localhost hl.localhost_of_hostAndPort)
  | host, hostAndPort, hh, hp | hostAndPort, host, hp, hh => absurd hp hh.not_hostAndPort_of_host

end Form

/-! ## Reading -/

/-- The place that a text names, whichever form the text is in. -/
inductive Names (text : List Char) : Socket → Prop
  | socket {socket : Socket} (h : Socket.read? text = some socket) : Names text socket
  | address {ip : Ip} (h : Ip.read? text = some ip) : Names text (ip.socket defaultPort)
  | host (h : text = "localhost".toList) : Names text (.v4 localhost defaultPort)
  | hostAndPort {port : List Char} {n : Nat} (h : localPort? text = some port)
      (hread : readNat? port = some n) (hn : n ≤ 65535) :
      Names text (.v4 localhost (UInt16.ofNat n))

theorem names_of_readListen {socket : Socket} (h : readListen (String.ofList text) = .ok socket) :
    Names text socket := by
  simp only [readListen, String.toList_ofList] at h
  split at h
  · next hsocket =>
    obtain rfl := Except.ok.inj h
    exact .socket hsocket
  split at h
  · next hip =>
    obtain rfl := Except.ok.inj h
    exact .address hip
  split at h
  · next hhost =>
    obtain rfl := Except.ok.inj h
    exact .host hhost
  split at h
  · contradiction
  next hport =>
  split at h
  · next hn =>
    obtain rfl := Except.ok.inj h
    obtain ⟨hread, hle⟩ := Option.filter_eq_some_iff.mp hn
    exact .hostAndPort hport hread (of_decide_eq_true hle)
  · contradiction

theorem Names.readListen {socket : Socket} (h : Names text socket) :
    readListen (String.ofList text) = .ok socket := by
  rw [Bridge.readListen, String.toList_ofList]
  cases h with
  | socket h => rw [h]
  | address h => rw [Socket.read?_of_ip h, h]
  | host h =>
    have hword := Form.Fits.localhost_of_host h
    rw [socket_read?_localhost hword, ip_read?_localhost hword, if_pos h]
  | hostAndPort hport hread hn =>
    have hfits : Form.hostAndPort.Fits text := ⟨_, hport⟩
    have hword := hfits.localhost_of_hostAndPort
    have hne : text ≠ "localhost".toList := fun h => Form.Fits.not_hostAndPort_of_host h hfits
    simp only [socket_read?_localhost hword, ip_read?_localhost hword, if_neg hne, hport, hread,
      Option.filter_some, decide_eq_true hn, if_true]

theorem readListen_eq_ok_iff {socket : Socket} :
    readListen (String.ofList text) = .ok socket ↔ Names text socket :=
  ⟨names_of_readListen, Names.readListen⟩

theorem localPort?_digitsOf (n : Nat) :
    localPort? ("localhost:".toList ++ digitsOf n) = some (digitsOf n) :=
  localPort?_eq_some_iff.mpr ⟨rfl, (digits_digitsOf n).notMem rfl⟩

theorem names_localhost_port (port : UInt16) :
    Names ("localhost:".toList ++ digitsOf port.toNat) (.v4 localhost port) := by
  have hread : readNat? (digitsOf port.toNat) = some port.toNat :=
    readNat?_eq_some_iff.mpr ⟨_, digitsOf_ne_nil _, fun _ hc => isDigit_of_mem_digitsOf hc,
      valueOf_digitsOf _, .inl rfl⟩
  have hle : port.toNat ≤ 65535 := Nat.le_of_lt_succ port.toNat_lt
  have hnames := Names.hostAndPort (localPort?_digitsOf port.toNat) hread hle
  rwa [UInt16.ofNat_toNat] at hnames

/-- Only brackets part an IPv6 address from a port; without them the whole text is the address. -/
theorem names_v6_iff {ip : IPv6} {scope : UInt32} {port : UInt16} :
    Names text (.v6 ip scope port) ↔
      (text.head? = some '[' ∧ Socket.read? text = some (.v6 ip scope port)) ∨
        (Ip.read? text = some (.v6 ip) ∧ scope = 0 ∧ port = defaultPort) := by
  constructor
  · generalize hplace : Socket.v6 ip scope port = place
    rintro (hsocket | @⟨v4 | v6, hip⟩ | _ | _)
    · subst hplace
      exact .inl ⟨Socket.head?_of_read? hsocket, hsocket⟩
    · cases hplace
    · obtain ⟨rfl, rfl, rfl⟩ := Socket.v6.inj hplace
      exact .inr ⟨hip, rfl, rfl⟩
    · cases hplace
    · cases hplace
  · rintro (⟨-, hsocket⟩ | ⟨hip, rfl, rfl⟩)
    · exact .socket hsocket
    · exact .address hip

/-- What is written as a place to listen is in its own form and is read as that place: addresses with
ports, addresses alone and ports of this host. No text is in two of the four forms, and an IPv6 address
without brackets has no port. -/
theorem readListen_written :
    (∀ socket : Socket, Form.socket.Fits socket.text ∧
      readListen (String.ofList socket.text) = .ok socket) ∧
    (∀ ip : Ip, Form.address.Fits ip.text ∧
      readListen (String.ofList ip.text) = .ok (ip.socket 17700)) ∧
    (∀ port : UInt16, Form.hostAndPort.Fits ("localhost:".toList ++ digitsOf port.toNat) ∧
      readListen (String.ofList ("localhost:".toList ++ digitsOf port.toNat)) =
        .ok (.v4 ⟨127, 0, 0, 1⟩ port)) ∧
    (∀ text, {form : Form | form.Fits text}.Subsingleton) ∧
    ∀ (text : List Char) (ip : IPv6) (scope : UInt32) (port : UInt16),
      readListen (String.ofList text) = .ok (.v6 ip scope port) ↔
        (text.head? = some '[' ∧ Socket.read? text = some (.v6 ip scope port)) ∨
          (Ip.read? text = some (.v6 ip) ∧ scope = 0 ∧ port = 17700) := by
  refine ⟨?sockets, ?addresses, ?ports, ?forms, ?brackets⟩
  case sockets =>
    intro socket
    have hread := socket.read?_text
    exact ⟨⟨socket, hread⟩, (Names.socket hread).readListen⟩
  case addresses =>
    intro ip
    have hread := ip.read?_text
    exact ⟨⟨ip, hread⟩, (Names.address hread).readListen⟩
  case ports =>
    intro port
    exact ⟨⟨_, localPort?_digitsOf port.toNat⟩, (names_localhost_port port).readListen⟩
  case forms =>
    intro text f hf g hg
    exact hf.unique hg
  case brackets =>
    intro text ip scope port
    exact readListen_eq_ok_iff.trans names_v6_iff

end Daybook.Bridge
