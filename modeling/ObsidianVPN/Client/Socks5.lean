import ObsidianVPN.Client.Uri
import ObsidianVPN.Lib.Feed

/-!
# The local SOCKS5 proxy

`handleConn` reads a greeting and a CONNECT request from a connection that delivers its bytes in
segments of any size, dials the target and relays.

* `SocksEnv`, `negotiate`, `readHost`, `readRequest`, `handleConn`: the code;
* `Address`, `Connect`: well-formed requests, `Connect.encode`: their bytes;
* `negotiate_sound`, `readHost_sound`, `readRequest_sound` and their converses `…_complete`;
* **`handleConn_iff`**: a connection is relayed exactly when it begins with a well-formed request,
  to the target it names, and from the byte behind it.
-/

namespace ObsidianVPN.Client

open ByteStr Decimal Uri

/-- What `handleConn` meets besides the bytes of the client: `net.IP.String`, whether its two
answers can be written, and which targets can be dialled. -/
structure SocksEnv where
  ipString : Bytes → Bytes
  greeted : Bool
  dial : Bytes → Bool
  replied : Bool

/-! ## The code -/

/-- The answer with the given code and no address. -/
def socksReply (code : UInt8) : Bytes := [0x05, code, 0x00, 0x01, 0, 0, 0, 0, 0, 0]

/-- The answer to the greeting: no authentication. -/
def noAuth : Bytes := [0x05, 0x00]

/-- The connection is closed after `written` if a read fails. -/
def orClose {α : Type} (written : Bytes) : Option α → Except Bytes α
  | none => .error written
  | some a => .ok a

/-- The connection is closed after `written` unless the condition holds. -/
def closeUnless (c : Prop) [Decidable c] (written : Bytes) : Except Bytes Unit :=
  if c then .ok () else .error written

/-- The greeting. An error is what has been written when the connection is closed. -/
def negotiate (env : SocksEnv) (client : Feed UInt8) : Except Bytes (Feed UInt8) := do
  let (header, client) ← orClose [] (client.readFull 2)
  closeUnless (header.getD 0 0 = 0x05) []
  let (_, client) ← orClose [] (client.readFull (header.getD 1 0).toNat)
  closeUnless env.greeted []
  return client

/-- The host of an address of the type `atyp`. -/
def readHost (env : SocksEnv) (atyp : UInt8) (client : Feed UInt8) :
    Except Bytes (Bytes × Feed UInt8) := do
  if atyp = 0x01 then
    let (ip, client) ← orClose noAuth (client.readFull 4)
    return (env.ipString ip, client)
  else if atyp = 0x03 then
    let (lenBuf, client) ← orClose noAuth (client.readFull 1)
    orClose noAuth (client.readFull (lenBuf.getD 0 0).toNat)
  else if atyp = 0x04 then
    let (ip, client) ← orClose noAuth (client.readFull 16)
    return (env.ipString ip, client)
  else .error (noAuth ++ socksReply 0x08)

/-- The request: the address to dial. -/
def readRequest (env : SocksEnv) (client : Feed UInt8) : Except Bytes (Bytes × Feed UInt8) := do
  let (reqHeader, client) ← orClose noAuth (client.readFull 4)
  closeUnless (reqHeader.getD 0 0 = 0x05 ∧ reqHeader.getD 1 0 = 0x01) (noAuth ++ socksReply 0x07)
  let (targetHost, client) ← readHost env (reqHeader.getD 3 0) client
  let (portBuf, client) ← orClose noAuth (client.readFull 2)
  return (joinHostPort targetHost (formatNat (getBE portBuf)), client)

/-- `handleConn` up to the relay: the target, and the client from where it is relayed. -/
def handleConn (env : SocksEnv) (client : Feed UInt8) : Except Bytes (Bytes × Feed UInt8) := do
  let client ← negotiate env client
  let (targetAddr, client) ← readRequest env client
  closeUnless (env.dial targetAddr) (noAuth ++ socksReply 0x04)
  closeUnless env.replied noAuth
  return (targetAddr, client)

/-! ## Well-formed requests -/

inductive Address where
  | ipv4 (ip : Bytes) (hlen : ip.length = 4)
  | domain (name : Bytes) (hlen : name.length < 256)
  | ipv6 (ip : Bytes) (hlen : ip.length = 16)

def Address.encode : Address → Bytes
  | ipv4 ip _ => 0x01 :: ip
  | domain name _ => 0x03 :: UInt8.ofNat name.length :: name
  | ipv6 ip _ => 0x04 :: ip

def Address.host (ipString : Bytes → Bytes) : Address → Bytes
  | ipv4 ip _ | ipv6 ip _ => ipString ip
  | domain name _ => name

/-- A greeting with its methods, and a CONNECT request. -/
structure Connect where
  methods : Bytes
  methods_lt : methods.length < 256
  rsv : UInt8
  addr : Address
  port : ℕ
  port_lt : port < 2 ^ 16

namespace Connect

def greeting (r : Connect) : Bytes := [0x05, UInt8.ofNat r.methods.length] ++ r.methods

def request (r : Connect) : Bytes := [0x05, 0x01, r.rsv] ++ r.addr.encode ++ putBE 2 r.port

def encode (r : Connect) : Bytes := r.greeting ++ r.request

def target (ipString : Bytes → Bytes) (r : Connect) : Bytes :=
  joinHostPort (r.addr.host ipString) (formatNat r.port)

end Connect

theorem toNat_ofNat_length {l : Bytes} (h : l.length < 256) : (UInt8.ofNat l.length).toNat = l.length :=
  UInt8.toNat_ofNat_of_lt h

@[simp] theorem orClose_eq_ok_iff {α : Type} {written : Bytes} {o : Option α} {a : α} :
    orClose written o = .ok a ↔ o = some a := by
  cases o <;> simp [orClose]

@[simp] theorem closeUnless_eq_ok_iff {c : Prop} [Decidable c] {written : Bytes} {u : Unit} :
    closeUnless c written = .ok u ↔ c := by
  unfold closeUnless
  split <;> simp_all

@[simp] theorem bind_eq_ok_iff {α β : Type} {x : Except Bytes α} {f : α → Except Bytes β} {b : β} :
    (x >>= f) = .ok b ↔ ∃ a, x = .ok a ∧ f a = .ok b := by
  cases x <;> simp [bind, Except.bind]

@[simp] theorem pure_eq_ok_iff {α : Type} {a b : α} :
    (pure a : Except Bytes α) = .ok b ↔ a = b := by
  simp [pure, Except.pure]

/-! ## What is accepted -/

variable {env : SocksEnv} {client rest : Feed UInt8} {host target payload : Bytes}

theorem negotiate_sound (h : negotiate env client = .ok rest) :
    env.greeted = true ∧ rest.later = client.later ∧ ∃ methods : Bytes, methods.length < 256 ∧
      client.beforeFault = [0x05, UInt8.ofNat methods.length] ++ methods ++ rest.beforeFault := by
  simp only [negotiate, bind_eq_ok_iff, orClose_eq_ok_iff, closeUnless_eq_ok_iff, pure_eq_ok_iff,
    Prod.exists, exists_const] at h
  obtain ⟨header, mid, hheader, hver, methods, tail, hmethods, hgreeted, rfl⟩ := h
  obtain ⟨hlen, hstream, hlater⟩ := Feed.readFull_sound hheader
  obtain ⟨hcount, hstream', hlater'⟩ := Feed.readFull_sound hmethods
  refine ⟨hgreeted, hlater'.trans hlater, methods, ?_, ?_⟩
  · rw [hcount]
    exact UInt8.toNat_lt _
  · match header, hlen with
    | [v, n], _ =>
      obtain rfl : v = 0x05 := hver
      have hn : UInt8.ofNat methods.length = n := by
        rw [hcount]
        exact UInt8.ofNat_toNat
      rw [hstream, hstream', hn, List.append_assoc]

theorem negotiate_complete (hgreeted : env.greeted = true) {methods tail : Bytes}
    (hmethods : methods.length < 256)
    (hclient : client.beforeFault = [0x05, UInt8.ofNat methods.length] ++ methods ++ tail) :
    ∃ rest, negotiate env client = .ok rest ∧ rest.beforeFault = tail ∧
      rest.later = client.later := by
  rw [List.append_assoc] at hclient
  obtain ⟨mid, hheader, hmid, hlater⟩ := Feed.readFull_complete hclient rfl
  obtain ⟨rest, hread, hrest, hlater'⟩ :=
    Feed.readFull_complete hmid (toNat_ofNat_length hmethods).symm
  refine ⟨rest, ?_, hrest, hlater'.trans hlater⟩
  simp only [negotiate, bind_eq_ok_iff, orClose_eq_ok_iff, closeUnless_eq_ok_iff, pure_eq_ok_iff,
    Prod.exists, exists_const]
  exact ⟨_, _, hheader, rfl, _, _, hread, hgreeted, rfl⟩

/-- A read of some bytes, and what `IP.String` makes of them. -/
theorem readIP_sound {n : ℕ} {x : Bytes × Feed UInt8}
    (h : (do
      let (ip, client) ← orClose noAuth (client.readFull n)
      return (env.ipString ip, client)) = Except.ok x) :
    ∃ ip : Bytes, ip.length = n ∧ x.1 = env.ipString ip ∧
      client.beforeFault = ip ++ x.2.beforeFault ∧ x.2.later = client.later := by
  simp only [bind_eq_ok_iff, orClose_eq_ok_iff, pure_eq_ok_iff, Prod.exists] at h
  obtain ⟨ip, rest, hread, rfl⟩ := h
  obtain ⟨hlen, hstream, hlater⟩ := Feed.readFull_sound hread
  exact ⟨ip, hlen, rfl, hstream, hlater⟩

theorem readHost_sound {atyp : UInt8} (h : readHost env atyp client = .ok (host, rest)) :
    ∃ addr : Address, host = addr.host env.ipString ∧ rest.later = client.later ∧
      atyp :: client.beforeFault = addr.encode ++ rest.beforeFault := by
  unfold readHost at h
  split_ifs at h with h₁ h₃ h₄
  · obtain ⟨ip, hlen, rfl, hstream, hlater⟩ := readIP_sound h
    exact ⟨.ipv4 ip hlen, rfl, hlater, by rw [h₁, hstream]; rfl⟩
  · simp only [bind_eq_ok_iff, orClose_eq_ok_iff, Prod.exists] at h
    obtain ⟨lenBuf, mid, hlenBuf, hname⟩ := h
    obtain ⟨hone, hstream, hlater⟩ := Feed.readFull_sound hlenBuf
    obtain ⟨hcount, hstream', hlater'⟩ := Feed.readFull_sound hname
    match lenBuf, hone with
    | [n], _ =>
      have hlt : host.length < 256 := by
        rw [hcount]
        exact UInt8.toNat_lt _
      have hn : UInt8.ofNat host.length = n := by
        rw [hcount]
        exact UInt8.ofNat_toNat
      refine ⟨.domain host hlt, rfl, hlater'.trans hlater, ?_⟩
      rw [h₃, hstream, hstream']
      simp only [Address.encode, hn]
      rfl
  · obtain ⟨ip, hlen, rfl, hstream, hlater⟩ := readIP_sound h
    exact ⟨.ipv6 ip hlen, rfl, hlater, by rw [h₄, hstream]; rfl⟩

theorem readHost_complete (env : SocksEnv) (addr : Address) {atyp : UInt8} {tail : Bytes}
    (hclient : atyp :: client.beforeFault = addr.encode ++ tail) :
    ∃ rest, readHost env atyp client = .ok (addr.host env.ipString, rest) ∧
      rest.beforeFault = tail ∧ rest.later = client.later := by
  unfold readHost
  cases addr with
  | ipv4 ip hlen =>
    obtain ⟨rfl, hstream⟩ := List.cons.inj hclient
    obtain ⟨rest, hread, hrest, hlater⟩ := Feed.readFull_complete hstream hlen
    refine ⟨rest, ?_, hrest, hlater⟩
    simp [hread, orClose, Address.host]
  | domain name hlen =>
    obtain ⟨rfl, hstream⟩ := List.cons.inj hclient
    obtain ⟨mid, hone, hmid, hlater⟩ :=
      Feed.readFull_complete (l := [UInt8.ofNat name.length]) hstream rfl
    obtain ⟨rest, hread, hrest, hlater'⟩ :=
      Feed.readFull_complete hmid (toNat_ofNat_length hlen).symm
    refine ⟨rest, ?_, hrest, hlater'.trans hlater⟩
    rw [if_neg (by decide), if_pos rfl]
    simp only [bind_eq_ok_iff, orClose_eq_ok_iff, Prod.exists]
    exact ⟨_, _, hone, hread⟩
  | ipv6 ip hlen =>
    obtain ⟨rfl, hstream⟩ := List.cons.inj hclient
    obtain ⟨rest, hread, hrest, hlater⟩ := Feed.readFull_complete hstream hlen
    refine ⟨rest, ?_, hrest, hlater⟩
    simp [hread, orClose, Address.host]

theorem readRequest_sound (h : readRequest env client = .ok (target, rest)) :
    ∃ (rsv : UInt8) (addr : Address) (port : ℕ), port < 2 ^ 16 ∧
      target = joinHostPort (addr.host env.ipString) (formatNat port) ∧
      rest.later = client.later ∧
      client.beforeFault =
        [0x05, 0x01, rsv] ++ addr.encode ++ putBE 2 port ++ rest.beforeFault := by
  simp only [readRequest, bind_eq_ok_iff, orClose_eq_ok_iff, closeUnless_eq_ok_iff, pure_eq_ok_iff,
    Prod.exists, exists_const, Prod.mk.injEq] at h
  obtain ⟨reqHeader, c₁, hheader, ⟨hver, hcmd⟩, host, c₂, hhost, portBuf, c₃, hport, rfl, rfl⟩ := h
  obtain ⟨hfour, hstream₁, hlater₁⟩ := Feed.readFull_sound hheader
  obtain ⟨addr, rfl, hlater₂, hstream₂⟩ := readHost_sound hhost
  obtain ⟨htwo, hstream₃, hlater₃⟩ := Feed.readFull_sound hport
  have hlt : getBE portBuf < 2 ^ 16 := by
    have := getBE_lt portBuf
    rw [htwo] at this
    omega
  refine ⟨reqHeader.getD 2 0, addr, getBE portBuf, hlt, rfl,
    (hlater₃.trans hlater₂).trans hlater₁, ?_⟩
  match reqHeader, hfour with
  | [v, c, r, t], _ =>
    obtain rfl : v = 0x05 := hver
    obtain rfl : c = 0x01 := hcmd
    have hbuf : putBE 2 (getBE portBuf) = portBuf := by
      refine getBE_injOn (by rw [length_putBE, htwo]) ?_
      exact getBE_putBE_of_lt hlt
    have htail : t :: c₁.beforeFault = addr.encode ++ (portBuf ++ c₃.beforeFault) := by
      rw [← hstream₃]
      exact hstream₂
    rw [hstream₁, hbuf]
    simpa using htail

theorem readRequest_complete (env : SocksEnv) (rsv : UInt8) (addr : Address) {port : ℕ} (hport : port < 2 ^ 16)
    {tail : Bytes} (hclient : client.beforeFault =
      [0x05, 0x01, rsv] ++ addr.encode ++ putBE 2 port ++ tail) :
    ∃ rest, readRequest env client =
        .ok (joinHostPort (addr.host env.ipString) (formatNat port), rest) ∧
      rest.beforeFault = tail ∧ rest.later = client.later := by
  -- the type of the address is the last byte of the header
  obtain ⟨t, bytes, hencode⟩ : ∃ t bytes, addr.encode = t :: bytes := by
    cases addr <;> exact ⟨_, _, rfl⟩
  have hheader : client.beforeFault = [0x05, 0x01, rsv, t] ++ (bytes ++ putBE 2 port ++ tail) := by
    rw [hclient, hencode]
    simp
  obtain ⟨c₁, hread₁, hc₁, hlater₁⟩ := Feed.readFull_complete hheader rfl
  have haddr : t :: c₁.beforeFault = addr.encode ++ (putBE 2 port ++ tail) := by
    rw [hc₁, hencode]
    simp
  obtain ⟨c₂, hread₂, hc₂, hlater₂⟩ := readHost_complete env addr haddr
  obtain ⟨c₃, hread₃, hc₃, hlater₃⟩ := Feed.readFull_complete hc₂ (length_putBE 2 port)
  refine ⟨c₃, ?_, hc₃, (hlater₃.trans hlater₂).trans hlater₁⟩
  simp only [readRequest, bind_eq_ok_iff, orClose_eq_ok_iff, closeUnless_eq_ok_iff, pure_eq_ok_iff,
    Prod.exists, exists_const, Prod.mk.injEq]
  refine ⟨_, _, hread₁, ⟨rfl, rfl⟩, _, _, hread₂, _, _, hread₃, ?_, rfl⟩
  rw [getBE_putBE_of_lt hport]

/-! ## What is written when the connection is closed -/

/-- What has been written when the connection is closed is one of `ws`. -/
def Closes {α : Type} (ws : List Bytes) (x : Except Bytes α) : Prop := ∀ w, x = .error w → w ∈ ws

theorem closes_bind {α β : Type} {ws : List Bytes} {x : Except Bytes α} {f : α → Except Bytes β}
    (hx : Closes ws x) (hf : ∀ a, Closes ws (f a)) : Closes ws (x >>= f) := by
  intro w hw
  cases x with
  | error e =>
    obtain rfl : e = w := Except.error.inj hw
    exact hx e rfl
  | ok a => exact hf a w hw

theorem closes_orClose {α : Type} {ws : List Bytes} {written : Bytes} (hmem : written ∈ ws)
    (o : Option α) : Closes ws (orClose written o) := by
  intro w hw
  cases o with
  | none => exact Except.error.inj hw ▸ hmem
  | some a => cases hw

theorem closes_closeUnless {ws : List Bytes} {written : Bytes} (hmem : written ∈ ws) (c : Prop)
    [Decidable c] : Closes ws (closeUnless c written) := by
  intro w hw
  unfold closeUnless at hw
  split at hw
  · cases hw
  · exact Except.error.inj hw ▸ hmem

theorem closes_pure {α : Type} (ws : List Bytes) (a : α) :
    Closes ws (pure a : Except Bytes α) := nofun

theorem closes_negotiate (env : SocksEnv) (client : Feed UInt8) :
    Closes [[]] (negotiate env client) := by
  have hmem : [] ∈ [([] : Bytes)] := List.mem_singleton_self _
  refine closes_bind (closes_orClose hmem _) fun _ => ?_
  refine closes_bind (closes_closeUnless hmem _) fun _ => ?_
  refine closes_bind (closes_orClose hmem _) fun _ => ?_
  exact closes_bind (closes_closeUnless hmem _) fun _ => closes_pure _ _

/-- The ends of a connection whose request is not complete or not supported. -/
def badRequest : List Bytes := [noAuth, noAuth ++ socksReply 0x07, noAuth ++ socksReply 0x08]

theorem closes_readHost (env : SocksEnv) (atyp : UInt8) (client : Feed UInt8) :
    Closes badRequest (readHost env atyp client) := by
  have hmem : noAuth ∈ badRequest := by decide
  unfold readHost
  split_ifs
  · exact closes_bind (closes_orClose hmem _) fun _ => closes_pure _ _
  · exact closes_bind (closes_orClose hmem _) fun _ => closes_orClose hmem _
  · exact closes_bind (closes_orClose hmem _) fun _ => closes_pure _ _
  · intro w hw
    exact Except.error.inj hw ▸ by decide

theorem closes_readRequest (env : SocksEnv) (client : Feed UInt8) :
    Closes badRequest (readRequest env client) := by
  have hmem : noAuth ∈ badRequest := by decide
  refine closes_bind (closes_orClose hmem _) fun _ => ?_
  refine closes_bind (closes_closeUnless (by decide) _) fun _ => ?_
  refine closes_bind (closes_readHost env _ _) fun _ => ?_
  exact closes_bind (closes_orClose hmem _) fun _ => closes_pure _ _

theorem bind_eq_error_iff {α β : Type} {x : Except Bytes α} {f : α → Except Bytes β} {w : Bytes} :
    (x >>= f) = .error w ↔ x = .error w ∨ ∃ a, x = .ok a ∧ f a = .error w := by
  cases x <;> simp [bind, Except.bind]

/-! ## What is relayed -/

/-- The client begins with a well-formed request for the target; `payload` is behind it. -/
def Requests (env : SocksEnv) (client : Feed UInt8) (target payload : Bytes) : Prop :=
  env.greeted = true ∧ ∃ r : Connect, target = r.target env.ipString ∧
    client.beforeFault = r.encode ++ payload

theorem requests_complete (h : Requests env client target payload) :
    ∃ c₁ c₂, negotiate env client = .ok c₁ ∧ readRequest env c₁ = .ok (target, c₂) ∧
      c₂.beforeFault = payload ∧ c₂.later = client.later := by
  obtain ⟨hgreeted, r, rfl, hstream⟩ := h
  have hfirst : client.beforeFault = r.greeting ++ (r.request ++ payload) := by
    rw [hstream, Connect.encode, List.append_assoc]
  obtain ⟨c₁, hneg, hc₁, hlater₁⟩ := negotiate_complete hgreeted r.methods_lt hfirst
  obtain ⟨c₂, hreq, hc₂, hlater₂⟩ := readRequest_complete env r.rsv r.addr r.port_lt hc₁
  exact ⟨c₁, c₂, hneg, hreq, hc₂, hlater₂.trans hlater₁⟩

theorem requests_sound {c₁ c₂ : Feed UInt8} (hneg : negotiate env client = .ok c₁)
    (hreq : readRequest env c₁ = .ok (target, c₂)) :
    Requests env client target c₂.beforeFault := by
  obtain ⟨hgreeted, -, methods, hmethods, hstream₁⟩ := negotiate_sound hneg
  obtain ⟨rsv, addr, port, hport, rfl, -, hstream₂⟩ := readRequest_sound hreq
  refine ⟨hgreeted, ⟨methods, hmethods, rsv, addr, port, hport⟩, rfl, ?_⟩
  rw [hstream₁, hstream₂]
  simp [Connect.encode, Connect.greeting, Connect.request]

/-- **A connection is relayed exactly when it begins with a well-formed request**, however its bytes
are cut, to the target that the request names, and from the first byte behind it; "host unreachable"
is the answer to the well-formed requests whose target cannot be dialled, and to nothing else. -/
theorem handleConn_iff (env : SocksEnv) (client : Feed UInt8) (target payload : Bytes) :
    ((∃ rest, handleConn env client = .ok (target, rest) ∧ rest.beforeFault = payload ∧
        rest.later = client.later) ↔
      Requests env client target payload ∧ env.dial target = true ∧ env.replied = true) ∧
    (handleConn env client = .error (noAuth ++ socksReply 0x04) ↔
      ∃ target payload, Requests env client target payload ∧ env.dial target = false) := by
  constructor
  · simp only [handleConn, bind_eq_ok_iff, closeUnless_eq_ok_iff, pure_eq_ok_iff, Prod.exists,
      exists_const, Prod.mk.injEq]
    constructor
    · rintro ⟨_, ⟨c₁, hneg, _, rest, hreq, hdial, hreplied, rfl, rfl⟩, rfl, -⟩
      exact ⟨requests_sound hneg hreq, hdial, hreplied⟩
    · rintro ⟨hreq, hdial, hreplied⟩
      obtain ⟨c₁, c₂, hneg, hread, hpayload, hlater⟩ := requests_complete hreq
      exact ⟨c₂, ⟨c₁, hneg, target, c₂, hread, hdial, hreplied, rfl, rfl⟩, hpayload, hlater⟩
  · constructor
    · intro h
      -- each place where the connection is closed has its own answer
      simp only [handleConn, bind_eq_error_iff] at h
      obtain hneg | ⟨c₁, hneg, hreq | ⟨⟨t, c₂⟩, hreq, hdial | ⟨_, _, hreplied | ⟨_, _, hpure⟩⟩⟩⟩ := h
      · exact absurd (closes_negotiate env client _ hneg) (by decide)
      · exact absurd (closes_readRequest env c₁ _ hreq) (by decide)
      · refine ⟨t, c₂.beforeFault, requests_sound hneg hreq, ?_⟩
        by_contra hne
        simp [closeUnless, hne] at hdial
      · exact absurd (closes_closeUnless (List.mem_singleton_self noAuth) _ _ hreplied) (by decide)
      · cases hpure
    · rintro ⟨t, payload, hreq, hdial⟩
      obtain ⟨c₁, c₂, hneg, hread, -⟩ := requests_complete hreq
      simp [handleConn, hneg, hread, hdial, closeUnless, bind, Except.bind]

end ObsidianVPN.Client
