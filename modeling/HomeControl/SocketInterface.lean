import HomeControl.Lib.Segments
import HomeControl.Frame

/-!
# The network producer

`tcpsocket_get` accepts one client after the other.  For each it clears `readbuf`,
receives into it, and sends its first six bytes when they are a command.
`TcpsocketGet.recv` is one round of the inner loop up to the call of
`send_message`, and `TcpsocketGet.connection` is the inner loop over everything
that one client sends.

The loop keeps nothing from one `recv` to the next: `connection_eq` says that each
result is taken for itself.  So the frames of a client arrive intact exactly when
TCP delivers them one by one (`connection_eq_iff`).
-/

namespace HomeControl

open SharedMemory

/-- `SIZE`: the length that `recv` is asked for. -/
def SIZE : Nat := 108

/-- The places of `tcpsocket_get`: at `accept`, in the inner loop, and after
`pthread_exit`. -/
inductive TcpPlace where
  | accepting
  | connected
  | exited
  deriving DecidableEq, Repr

/-- The local state of `tcpsocket_get`.  `sending` is the message while
`send_message` has not returned. -/
structure TcpsocketGet where
  readbuf : Buffer
  place : TcpPlace
  sending : Option Msg

def TcpsocketGet.start : TcpsocketGet :=
  { readbuf := memset 0, place := .accepting, sending := none }

/-- `accept` and the four `setsockopt` calls.  A failed `accept` is tried again; a
failed `setsockopt` ends the thread. -/
def TcpsocketGet.accept (s : TcpsocketGet) (accepted optionsSet : Bool) : TcpsocketGet :=
  if accepted then
    if optionsSet then { s with place := .connected } else { s with place := .exited }
  else s

/-- `memset(readbuf, 0, sizeof(readbuf))`: the six bytes of the array. -/
def clearReadbuf (readbuf : Buffer) : Buffer := memcpy readbuf (List.replicate 6 0)

/-- The `memset`, `recv`, the test, and the call of `send_message`. -/
def TcpsocketGet.recv (s : TcpsocketGet) (r : IoResult) : TcpsocketGet :=
  let readbuf := memcpy (clearReadbuf s.readbuf) r.stored
  if r.ret > 0 then
    { s with
      readbuf := readbuf
      sending := if validData readbuf then some (firstCells readbuf 6) else none }
  else { s with readbuf := readbuf, place := .accepting }

/-- `send_message` has returned. -/
def TcpsocketGet.returned (s : TcpsocketGet) : TcpsocketGet := { s with sending := none }

/-- The messages that one connection sends, when every `send_message` succeeds. -/
def TcpsocketGet.connection (s : TcpsocketGet) : List IoResult → List Msg
  | [] => []
  | r :: rs =>
    (s.recv r).sending.toList ++
      if (s.recv r).place = .connected then (s.recv r).returned.connection rs else []

theorem TcpsocketGet.sending_accept (s : TcpsocketGet) (accepted optionsSet : Bool) :
    (s.accept accepted optionsSet).sending = s.sending := by
  unfold TcpsocketGet.accept
  split
  · split <;> rfl
  · rfl

theorem clearReadbuf_eq_zero (readbuf : Buffer) {i : Nat} (hi : i < 6) :
    clearReadbuf readbuf i = 0 :=
  memcpy_of_getElem? readbuf (List.getElem?_replicate_of_lt hi)

/-- `send_message` is called exactly for a result that itself starts with a command,
and with its first six bytes. -/
theorem TcpsocketGet.sending_recv {s : TcpsocketGet} (hidle : s.sending = none)
    (r : IoResult) : (s.recv r).sending = r.frame?.map Frame.bytes := by
  have hframe := frame?_eq_of_validData (clearReadbuf s.readbuf)
    (fun i hi => clearReadbuf_eq_zero s.readbuf hi) r
  unfold TcpsocketGet.recv
  by_cases hret : r.ret > 0
  · rw [if_pos hret, hframe]
    by_cases hvalid : validData (memcpy (clearReadbuf s.readbuf) r.stored) = true
    · rw [if_pos hvalid, if_pos hvalid]
      exact congrArg some (firstCells_of_validData hvalid)
    · rw [if_neg hvalid, if_neg hvalid]
      rfl
  · rw [if_neg hret, IoResult.frame?_eq_none hret]
    exact hidle

theorem TcpsocketGet.place_recv {s : TcpsocketGet} (hplace : s.place = .connected)
    (r : IoResult) : (s.recv r).place = .connected ↔ r.ret > 0 := by
  unfold TcpsocketGet.recv
  by_cases hret : r.ret > 0
  · rw [if_pos hret]
    exact ⟨fun _ => hret, fun _ => hplace⟩
  · rw [if_neg hret]
    refine ⟨fun h => ?_, fun h => absurd h hret⟩
    cases h

/-- A connection sends the commands at the start of its results, up to the first
result that ends it. -/
theorem TcpsocketGet.connection_eq {s : TcpsocketGet} (hplace : s.place = .connected)
    (hidle : s.sending = none) (rs : List IoResult) :
    s.connection rs =
      ((rs.takeWhile fun r => decide (r.ret > 0)).filterMap IoResult.frame?).map
        Frame.bytes := by
  induction rs generalizing s with
  | nil => rfl
  | cons r rs ih =>
    rw [TcpsocketGet.connection, sending_recv hidle]
    by_cases hret : r.ret > 0
    · have hconn := (place_recv hplace r).mpr hret
      have hrest := ih (s := (s.recv r).returned) hconn rfl
      rw [if_pos hconn, hrest, List.takeWhile_cons_of_pos (by simpa using hret)]
      cases hframe : r.frame? with
      | none => rw [List.filterMap_cons_none hframe]; rfl
      | some f => rw [List.filterMap_cons_some hframe]; rfl
    · have hclosed : (s.recv r).place ≠ .connected :=
        fun h => hret ((place_recv hplace r).mp h)
      rw [if_neg hclosed, IoResult.frame?_eq_none hret,
        List.takeWhile_cons_of_neg (by simpa using hret)]
      rfl

/-! ## One client's frames -/

/-- TCP delivers the frames of a client in pieces of 1 to `SIZE` bytes. -/
structure Delivers (frames : List Frame) (segs : List (List UInt8)) : Prop where
  stream : segs.flatten = (frames.map Frame.bytes).flatten
  size : ∀ seg ∈ segs, 1 ≤ seg.length ∧ seg.length ≤ SIZE

/-- The results of `recv` for these pieces, and the end of the connection. -/
def results (segs : List (List UInt8)) : List IoResult := segs.map some ++ [some []]

theorem Delivers.connection {frames : List Frame} {segs : List (List UInt8)}
    (h : Delivers frames segs) {s : TcpsocketGet} (hplace : s.place = .connected)
    (hidle : s.sending = none) :
    s.connection (results segs) = (segs.filterMap Frame.ofBytes?).map Frame.bytes := by
  have htake : (results segs).takeWhile (fun r => decide (r.ret > 0)) = segs.map some := by
    unfold results
    have hpos : ∀ r ∈ segs.map some, decide (IoResult.ret r > 0) = true := by
      intro r hr
      obtain ⟨seg, hseg, rfl⟩ := List.mem_map.mp hr
      have hlen := (h.size seg hseg).1
      rw [decide_eq_true_eq]
      show (seg.length : Int) > 0
      omega
    rw [List.takeWhile_append_of_pos hpos]
    exact List.append_nil _
  rw [TcpsocketGet.connection_eq hplace hidle, htake, List.filterMap_map]
  rfl

theorem Frame.length_flatten_bytes (frames : List Frame) :
    (frames.map Frame.bytes).flatten.length = 6 * frames.length := by
  induction frames with
  | nil => rfl
  | cons f fs ih =>
    rw [List.map_cons, List.flatten_cons, List.length_append, ih, Frame.length_bytes,
      List.length_cons]
    omega

/-- A piece that starts with a frame holds at least six bytes. -/
theorem Frame.six_le_length {bs : List UInt8} (h : (Frame.ofBytes? bs).isSome = true) :
    6 ≤ bs.length := by
  obtain ⟨f, hf⟩ := Option.isSome_iff_exists.mp h
  obtain ⟨rest, rfl⟩ := Frame.ofBytes?_eq_some_iff.mp hf
  rw [List.length_append, Frame.length_bytes]
  omega

/-- A connection enqueues exactly the frames that were sent, each once and in order,
if and only if TCP delivers them one by one. -/
theorem connection_eq_iff (s : TcpsocketGet) (hplace : s.place = .connected)
    (hidle : s.sending = none) (frames : List Frame) (segs : List (List UInt8))
    (h : Delivers frames segs) :
    s.connection (results segs) = frames.map Frame.bytes ↔
      ∀ seg ∈ segs, seg.length = 6 := by
  rw [h.connection hplace hidle]
  constructor
  · intro heq
    have hcount : (segs.filter fun seg => (Frame.ofBytes? seg).isSome).length =
        frames.length := by
      have hlen := congrArg List.length heq
      rw [List.length_map, List.length_map, List.length_filterMap_eq_countP,
        List.countP_eq_length_filter] at hlen
      exact hlen
    have htotal : segs.flatten.length =
        6 * (segs.filter fun seg => (Frame.ofBytes? seg).isSome).length := by
      rw [h.stream, Frame.length_flatten_bytes, hcount]
    have hall := Segments.accepts_all_of_length (fun seg => (Frame.ofBytes? seg).isSome)
      (fun seg hseg => (h.size seg hseg).1)
      (fun seg _ hsome => Frame.six_le_length hsome) htotal
    exact fun seg hseg => (hall seg hseg).2
  · intro hsix
    have hframes : ∀ m ∈ frames.map Frame.bytes, m.length = 6 := by
      intro m hm
      obtain ⟨f, -, rfl⟩ := List.mem_map.mp hm
      exact Frame.length_bytes f
    have hsegs : segs = frames.map Frame.bytes :=
      Segments.eq_of_flatten_eq (by decide) hsix hframes h.stream
    have hread : ∀ f : Frame, Frame.ofBytes? f.bytes = some f := fun f => by
      rw [← List.append_nil f.bytes, Frame.ofBytes?_bytes_append]
    have hall : Frame.ofBytes? ∘ Frame.bytes = some := funext hread
    rw [hsegs, List.filterMap_map, hall, List.filterMap_some]

/-- A client that has just been accepted. -/
def TcpsocketGet.accepted : TcpsocketGet :=
  { readbuf := memset 0, place := .connected, sending := none }

/-- Two frames that arrive one by one. -/
theorem connection_one_by_one :
    TcpsocketGet.accepted.connection
        (results [[0xAA, 0x55, 0x41, 0x00, 0x55, 0xAA], [0xAA, 0x55, 0x42, 0x01, 0x55, 0xAA]]) =
      [Frame.mk 0x41 0x00, Frame.mk 0x42 0x01].map Frame.bytes :=
  (connection_eq_iff TcpsocketGet.accepted rfl rfl [⟨0x41, 0x00⟩, ⟨0x42, 0x01⟩] _
    ⟨rfl, by decide⟩).mpr (by decide)

/-- A frame that is cut over two results is lost. -/
theorem connection_loses_frame :
    ¬ ∀ frames segs, Delivers frames segs →
      TcpsocketGet.accepted.connection (results segs) = frames.map Frame.bytes := by
  intro hall
  have hcut := hall [⟨0x41, 0x00⟩] [[0xAA, 0x55, 0x41], [0x00, 0x55, 0xAA]] ⟨rfl, by decide⟩
  exact absurd hcut (by decide +kernel)

end HomeControl
