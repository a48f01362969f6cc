import ObsidianVPN.Lib.Relay
import ObsidianVPN.Reality.Demux

/-!
# The connections that are turned away

Whoever does not present a token is passed on to the fallback target: `TransparentSNIProxy` writes
the bytes that `processIncoming` has read to the target and relays the rest in both directions.

* `transparentSNIProxy`: the code up to the relay, `proxyPolicy`: the relay;
* **`fallback_transparent`**: the target receives the stream of the client from its first byte on,
  the client what the target answers; neither loses anything when the other one has finished.
-/

namespace ObsidianVPN.Reality

open ByteStr GoString Machine Relay

/-- The size of the buffers of `relayBufferPool`. -/
def relayBufferSize : ℕ := 32 * 1024

/-- `pipe` passes the end on, and `TransparentSNIProxy` waits for both of them. -/
def proxyPolicy : Policy := ⟨.closeWrite, true, relayBufferSize⟩

/-- Whether the target can be dialled, and whether it takes the first bytes. -/
structure Dialing where
  dial : Except String Unit
  /-- An error comes with the number of bytes that were written before it. -/
  flush : Except (ℕ × String) Unit

/-- What `TransparentSNIProxy` has come to: it closes the connection, or relays. -/
inductive Proxying where
  | failed (err : String) (toTarget : Bytes)
  | relaying (st : State UInt8)

/-- `TransparentSNIProxy` up to the relay; the client is on the near side. -/
def transparentSNIProxy (targetAddr firstBytes : Bytes) (net : Dialing) : Proxying :=
  if targetAddr = [] then .failed "empty fallback target address" []
  else
    match net.dial with
    | .error err => .failed ("failed to dial fallback backend: " ++ err) []
    | .ok () =>
      match if firstBytes.length > 0 then net.flush else .ok () with
      | .error (k, err) => .failed err (firstBytes.take k)
      | .ok () => .relaying (.start firstBytes)

theorem relaying_start {targetAddr firstBytes : Bytes} {net : Dialing} {st : State UInt8}
    (h : transparentSNIProxy targetAddr firstBytes net = .relaying st) :
    st = .start firstBytes := by
  unfold transparentSNIProxy at h
  split at h
  · cases h
  · split at h
    · cases h
    · split at h
      · cases h
      · exact (Proxying.relaying.inj h).symm

/-- **A connection that is turned away is passed on unchanged.** At every time each end has received
a first part of what the other one has sent. If no connection fails, an end is told that nothing more
comes only when everything has been passed on, the connections are closed only after that, and a
direction that rests has passed on everything: to the target, the stream of the client from its
first byte. -/
theorem fallback_transparent (P : Primitives) (d : RealityDemuxer) (env : Surroundings)
    (conn : Feed UInt8) (net : Dialing) {firstBytes : Bytes} {rest : Feed UInt8}
    (hfall : (d.processIncoming P env conn).1 = .fallback firstBytes rest)
    {first st : State UInt8} {es : List (Event UInt8)}
    (hproxy : transparentSNIProxy env.fallbackTarget firstBytes net = .relaying first)
    (hrun : run (Relay.step proxyPolicy) first es = some st) :
    (∀ s, (st.dir s).out <+: (st.dir s).sent) ∧
    (∀ s, (es.map fun e => (e.copies s).toNat).sum ≤ 2 * (st.dir s).sent.length + 2) ∧
    (Along (Relay.step proxyPolicy) Sound first es →
      (∀ s, (st.dir s).finOut = true → (st.dir s).fin = true ∧ (st.dir s).out = (st.dir s).sent) ∧
      (st.shut = true → ∀ s, (st.dir s).finOut = true) ∧
      (∀ s, Stuck proxyPolicy st s → (st.dir s).out = (st.dir s).sent ∧
        ((st.dir s).fin = true → (st.dir s).finOut = true)) ∧
      ((st.dir .near).sent = firstBytes ++ rest.content → Stuck proxyPolicy st .near →
        (st.dir .near).out = conn.content)) := by
  obtain rfl := relaying_start hproxy
  refine ⟨fun s => (flow_run hrun s).out_isPrefix, fun s => copies_le hrun s, fun hsound => ?_⟩
  have hinv := Inv.run rfl rfl hsound hrun
  have hstuck : ∀ s, Stuck proxyPolicy st s → (st.dir s).out = (st.dir s).sent ∧
      ((st.dir s).fin = true → (st.dir s).finOut = true) :=
    fun s hs => delivered_of_stuck rfl rfl (by decide) hsound hrun hs
  refine ⟨fun s hfin => ?_, fun hshut s => ?_, hstuck, fun hsent hrest => ?_⟩
  · exact ((hinv.whole s).all ((hinv.whole s).late hfin)).symm
  · exact (hinv.whole s).told (hinv.finished hshut s)
  · have hkeeps := keeps_processIncoming P d env conn
    rw [hfall] at hkeeps
    rw [(hstuck .near hrest).1, hsent]
    exact hkeeps

section Sample

/-- A plain HTTP request in two segments. -/
def probeConn : Feed UInt8 := [.data (ascii "GET /"), .data (ascii " HTTP/1.0")]

def probeSurroundings : Surroundings := { sampleSurroundings with fallbackTarget := ascii "t:443" }

/-- The probe finishes before the target answers. -/
def probeRun : List (Event UInt8) :=
  [.move .near (.send (ascii " HTTP/1.0")), .move .near .finish, .move .near (.read 9),
    .move .near (.write 0), .move .near (.read 0), .move .near .ending, .move .far (.send [1, 2]),
    .move .far (.read 2), .move .far (.write 0), .move .far .finish, .move .far (.read 0),
    .move .far .ending, .shut]

def probeEnd : State UInt8 :=
  last (Relay.step proxyPolicy) (.start (ascii "GET /")) probeRun

theorem fallback_transparent_probe :
    (probeEnd.dir .near).out = probeConn.content ∧ (probeEnd.dir .far).out = [1, 2] ∧
      probeEnd.shut = true := by
  have hfall : (sampleDemuxer.processIncoming .sample probeSurroundings probeConn).1 =
      .fallback (ascii "GET /") (peekRecord probeConn).rest := by
    have hok : (peekRecord probeConn).ok = false := by decide +kernel
    have hbuf : (peekRecord probeConn).buf = ascii "GET /" := by decide +kernel
    have htarget : probeSurroundings.fallbackTarget ≠ [] := by decide +kernel
    simp [RealityDemuxer.processIncoming, hok, hbuf, Surroundings.turnAway, htarget]
  have hrun : run (Relay.step proxyPolicy) (.start (ascii "GET /")) probeRun = some probeEnd :=
    run_eq_last (by decide +kernel)
  have hsound : Along (Relay.step proxyPolicy) Sound (.start (ascii "GET /")) probeRun := by
    simp [probeRun, Along, Sound]
  have h := (fallback_transparent .sample sampleDemuxer probeSurroundings probeConn ⟨.ok (), .ok ()⟩
    hfall rfl hrun).2.2 hsound
  exact ⟨h.2.2.2 (by decide +kernel) (stuck_of_isDone rfl), by decide +kernel, by decide +kernel⟩

end Sample

end ObsidianVPN.Reality
