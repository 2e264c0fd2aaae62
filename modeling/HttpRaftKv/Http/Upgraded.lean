import HttpRaftKv.Http.WebSockets
import HttpRaftKv.WebSocket.Wire

/-!
# Upgraded connections

The frames of a stream are handled in the same way however it is cut.  But with a
Close frame the connection leaves the registry while it is still read, and what
arrives behind the frame is taken for a request.
-/

namespace HttpRaftKv.Http.HttpServer

open WebSocket WebSocketServer

/-- The bytes of some pieces. -/
def arrived (chunks : List (Bytes × Bool)) : Bytes :=
  (chunks.map Prod.fst).flatten

theorem arrived_snoc (chunks : List (Bytes × Bool)) (chunk : Bytes × Bool) :
    arrived (chunks ++ [chunk]) = arrived chunks ++ chunk.1 := by
  simp [arrived]

/-! ## Callbacks and replies -/

/-- What has been called and sent since `c₀`, up to the first call of `onClose`. -/
def callsUntilClose (c₀ c : Connection) : List Effect :=
  Decoder.upTo (fun effect ↦ effect = .onClose) ((calls c).drop (calls c₀).length)

theorem upTo_frameEffects (frame : WebSocketFrame) (later : List Effect) :
    Decoder.upTo (fun effect ↦ effect = .onClose) (frameEffects frame ++ later) =
      frameEffects frame ++
        if isClose frame then [] else Decoder.upTo (fun effect ↦ effect = .onClose) later := by
  unfold frameEffects isClose
  split
  all_goals simp_all [Decoder.upTo]

/-- The calls for some frames end with the first Close frame. -/
theorem upTo_flatMap_frameEffects (fs : List WebSocketFrame) (later : List Effect) :
    Decoder.upTo (fun effect ↦ effect = .onClose) (fs.flatMap frameEffects ++ later) =
      (Decoder.upTo isClose fs).flatMap frameEffects ++
        if fs.any isClose then [] else Decoder.upTo (fun effect ↦ effect = .onClose) later := by
  induction fs with
  | nil => rfl
  | cons frame fs ih =>
      rw [List.flatMap_cons, List.append_assoc, upTo_frameEffects, ih, Decoder.upTo, List.any_cons,
        List.flatMap_cons]
      cases isClose frame with
      | true => simp
      | false => simp

theorem calls_mono {c c' : Connection} (h : c.trace <+: c'.trace) : calls c <+: calls c' := by
  obtain ⟨rest, hrest⟩ := h
  exact ⟨_, by rw [calls, calls, ← hrest, List.filter_append]⟩

/-- The calls for the frames that have arrived come first, and before a Close frame
there are no others. -/
theorem calls_run {c : Connection} (hrunning : c.status = .running)
    (hopen : c.webSocket = some .isOpen) (chunks : List (Bytes × Bool)) :
    (closes (c.buf ++ arrived chunks) = false →
        Follows c (c.buf ++ arrived chunks) (Runs.run deliver (processRest c) chunks)) ∧
      calls c ++ (frames (c.buf ++ arrived chunks)).1.flatMap frameEffects <+:
        calls (Runs.run deliver (processRest c) chunks) := by
  induction chunks using List.reverseRecOn with
  | nil =>
      have hfollows := (follows_processRest hrunning hopen).append_nil
      exact ⟨fun _ ↦ hfollows, hfollows.calls ▸ List.prefix_rfl⟩
  | append_singleton chunks chunk ih =>
      obtain ⟨hfollows, hcalls⟩ := ih
      rw [Runs.run_snoc, arrived_snoc, ← List.append_assoc]
      cases hcloses : closes (c.buf ++ arrived chunks) with
      | false =>
          have hnext := (hfollows hcloses).deliver hcloses chunk
          exact ⟨fun _ ↦ hnext, hnext.calls ▸ List.prefix_rfl⟩
      | true =>
          refine ⟨fun hopen' ↦ ?_, ?_⟩
          · rw [closes_append, hcloses, Bool.true_or] at hopen'
            cases hopen'
          · rw [frames_append, if_pos hcloses]
            exact hcalls.trans (calls_mono (trace_deliver _ chunk))

theorem callsUntilClose_run {c : Connection} (hrunning : c.status = .running)
    (hopen : c.webSocket = some .isOpen) (chunks : List (Bytes × Bool)) :
    callsUntilClose c (Runs.run deliver (processRest c) chunks) =
      (frames (c.buf ++ arrived chunks)).1.flatMap frameEffects := by
  obtain ⟨hfollows, later, hcalls⟩ := calls_run hrunning hopen chunks
  have hupTo : Decoder.upTo isClose (frames (c.buf ++ arrived chunks)).1 =
      (frames (c.buf ++ arrived chunks)).1 := frameDecoder.upTo_drain _
  have hlater : closes (c.buf ++ arrived chunks) = false → later = [] := by
    intro hcloses
    rw [(hfollows hcloses).calls] at hcalls
    exact List.append_right_eq_self.mp hcalls
  rw [callsUntilClose, ← hcalls, List.append_assoc, List.drop_left, upTo_flatMap_frameEffects, hupTo]
  cases hcloses : closes (c.buf ++ arrived chunks) with
  | true =>
      rw [closes] at hcloses
      rw [if_pos hcloses, List.append_nil]
  | false =>
      rw [hlater hcloses]
      simp [Decoder.upTo]

/-- However the bytes of some frames are cut, the calls and the replies up to the
first Close frame are those of the frames, as if each of them arrived alone. -/
theorem delivery_independent_of_cut {c : Connection} (hrunning : c.status = .running)
    (hopen : c.webSocket = some .isOpen) {wires : List Wire} {chunks : List (Bytes × Bool)}
    (hchunks : c.buf ++ arrived chunks = (wires.map Wire.bytes).flatten) :
    callsUntilClose c (Runs.run deliver (processRest c) chunks) =
        callsUntilClose c (Runs.run deliver { c with buf := [] }
          (wires.map fun w ↦ (w.bytes, false))) ∧
      callsUntilClose c (Runs.run deliver (processRest c) chunks) =
        (Decoder.upTo isClose (wires.map Wire.frame)).flatMap frameEffects := by
  have hwhole : List.Forall₂ frameDecoder.Whole (wires.map Wire.bytes) (wires.map Wire.frame) := by
    rw [List.forall₂_map_left_iff, List.forall₂_map_right_iff, List.forall₂_same]
    exact fun w _ ↦ w.whole_bytes
  have halone : arrived (wires.map fun w ↦ (w.bytes, false)) = (wires.map Wire.bytes).flatten := by
    rw [arrived, List.map_map]
    rfl
  have hrest : processRest { c with buf := [] } = { c with buf := [] } := if_neg (by simp)
  have hrun := callsUntilClose_run (c := { c with buf := [] }) hrunning hopen
    (wires.map fun w ↦ (w.bytes, false))
  rw [hrest, halone, List.nil_append, ← hchunks] at hrun
  have hcalls := callsUntilClose_run hrunning hopen chunks
  refine ⟨hcalls.trans hrun.symm, hcalls.trans ?_⟩
  rw [hchunks]
  exact congrArg (List.flatMap frameEffects) (frameDecoder.drain_flatten hwhole)

/-- A masked Ping frame, a text with a length of two bytes and a Close frame. -/
def greeting : List Wire :=
  [⟨137, .short, some [1, 2, 3, 4], ascii "hi", by decide, by decide⟩,
    ⟨129, .medium, none, ascii "hello", by decide, by decide⟩,
    ⟨136, .short, some [5, 6, 7, 8], [], by decide, by decide⟩]

/-- The pieces end in the first frame, in the length of the second one and in the
last one. -/
def greetingPieces : List (Bytes × Bool) :=
  [([137, 130, 1], false), ([2, 3, 4, 105, 107, 129, 126, 0], false),
    ([5, 104, 101, 108, 108, 111, 136, 128, 5, 6], false), ([7, 8], false)]

theorem greeting_delivered_in_pieces :
    callsUntilClose { Connection.create with webSocket := some .isOpen }
        (Runs.run deliver (processRest { Connection.create with webSocket := some .isOpen })
          greetingPieces) =
      [.send [138, 2, 104, 105], .onPing (ascii "hi"), .onMessage (ascii "hello"),
        .send [136, 0], .onClose] :=
  (delivery_independent_of_cut rfl rfl
    (show _ = (greeting.map Wire.bytes).flatten by decide +kernel)).2.trans (by decide +kernel)

/-! ## Requests behind a Close frame -/

/-- Once a Close frame is complete, no call finds bytes in the buffer. -/
def SilentAfterClose (rest : Bytes) (chunks : List (Bytes × Bool)) : Prop :=
  ∀ past chunk, past ++ [chunk] <+: chunks → closes (rest ++ arrived past) = true →
    (frames (rest ++ arrived past)).2 ++ chunk.1 = []

theorem silentAfterClose_snoc {rest : Bytes} {chunks : List (Bytes × Bool)} {chunk : Bytes × Bool} :
    SilentAfterClose rest (chunks ++ [chunk]) ↔
      SilentAfterClose rest chunks ∧ (closes (rest ++ arrived chunks) = true →
        (frames (rest ++ arrived chunks)).2 ++ chunk.1 = []) := by
  constructor
  · intro h
    exact ⟨fun past next hpast ↦ h past next (hpast.trans (List.prefix_append _ _)),
      h chunks chunk List.prefix_rfl⟩
  · rintro ⟨hpast, hlast⟩ past next hprefix
    rcases Runs.snoc_isPrefix_snoc.mp hprefix with ⟨rfl, rfl⟩ | hprefix
    · exact hlast
    · exact hpast past next hprefix

theorem follows_run {c : Connection} (hrunning : c.status = .running)
    (hopen : c.webSocket = some .isOpen) {chunks : List (Bytes × Bool)}
    (h : SilentAfterClose c.buf chunks) :
    Follows c (c.buf ++ arrived chunks) (Runs.run deliver (processRest c) chunks) := by
  induction chunks using List.reverseRecOn with
  | nil => exact (follows_processRest hrunning hopen).append_nil
  | append_singleton chunks chunk ih =>
      obtain ⟨hpast, hlast⟩ := silentAfterClose_snoc.mp h
      have hfollows := ih hpast
      rw [Runs.run_snoc, arrived_snoc, ← List.append_assoc]
      cases hcloses : closes (c.buf ++ arrived chunks) with
      | false => exact hfollows.deliver hcloses chunk
      | true =>
          have hnil := hlast hcloses
          rw [← hfollows.buf] at hnil
          rw [hfollows.deliver_nil hnil, (List.append_eq_nil_iff.mp hnil).2]
          exact hfollows.append_nil

theorem silentAfterClose_of_parses {c : Connection} (hrunning : c.status = .running)
    (hopen : c.webSocket = some .isOpen) {chunks : List (Bytes × Bool)}
    (h : parses (Runs.run deliver (processRest c) chunks) = parses c) :
    SilentAfterClose c.buf chunks := by
  induction chunks using List.reverseRecOn with
  | nil =>
      intro past chunk hprefix
      have hlength := hprefix.length_le
      simp at hlength
  | append_singleton chunks chunk ih =>
      rw [Runs.run_snoc] at h
      -- Nothing was parsed before the last piece either.
      have hpast : parses (Runs.run deliver (processRest c) chunks) = parses c := by
        have hbefore := parses_mono ((trace_processRest c).trans (trace_run _ chunks))
        have hafter := parses_mono (trace_deliver (Runs.run deliver (processRest c) chunks) chunk)
        rw [h] at hafter
        exact hafter.eq_of_length_le hbefore.length_le
      have hsilent := ih hpast
      have hfollows := follows_run hrunning hopen hsilent
      refine silentAfterClose_snoc.mpr ⟨hsilent, fun hcloses ↦ ?_⟩
      by_contra hne
      rw [← hfollows.buf] at hne
      have hlength := (parses_deliver_of_follows hfollows hcloses hne).length_le
      rw [h, hpast] at hlength
      simp at hlength

/-- Whatever pieces arrive after an upgrade, none of their bytes is given to the
parser of requests exactly if no call finds any behind the first Close frame. -/
theorem never_parses_again_iff {c : Connection} (hrunning : c.status = .running) {r : HttpRequest}
    (hupgrade : validateUpgradeRequest r = true) (chunks : List (Bytes × Bool)) :
    parses (Runs.run deliver (processRest (handleUpgrade c r)) chunks) = parses c ↔
      SilentAfterClose c.buf chunks := by
  have hopened : handleUpgrade c r = { c with webSocket := some .isOpen }.did [.onOpen] :=
    if_pos hupgrade
  have hparses : parses (handleUpgrade c r) = parses c := by
    rw [hopened, parses_did]
    simp [parses]
  have hstatus : (handleUpgrade c r).status = .running := by
    rw [hopened]
    exact hrunning
  have hwebSocket : (handleUpgrade c r).webSocket = some .isOpen := by
    rw [hopened]
    rfl
  have hbuf : (handleUpgrade c r).buf = c.buf := by
    rw [hopened]
    rfl
  rw [← hparses, ← hbuf]
  constructor
  · exact silentAfterClose_of_parses hstatus hwebSocket
  · exact fun h ↦ (follows_run hstatus hwebSocket h).parses

/-- A request for an upgrade. -/
def upgradeRequest : HttpRequest :=
  { HttpRequest.create with
    method := .get
    headers := [(ascii "Upgrade", ascii "websocket"), (ascii "Connection", ascii "Upgrade"),
      (ascii "Sec-WebSocket-Key", ascii "dGhlIHNhbXBsZSBub25jZQ=="),
      (ascii "Sec-WebSocket-Version", ascii "13")] }

/-- The pieces of the greeting end with a Close frame. -/
theorem never_parses_greeting :
    validateUpgradeRequest upgradeRequest = true ∧
      parses (Runs.run deliver (processRest (handleUpgrade .create upgradeRequest))
        greetingPieces) = [] := by
  have hvalid : validateUpgradeRequest upgradeRequest = true := by decide +kernel
  refine ⟨hvalid, (never_parses_again_iff rfl hvalid greetingPieces).mpr ?_⟩
  rintro past chunk ⟨later, hlater⟩ hcloses
  have hpieces : ∀ n < 4, closes (Connection.create.buf ++ arrived (greetingPieces.take n)) = false :=
    by decide +kernel
  have hlength : past.length < 4 := by
    have heq := congrArg List.length hlater
    simp only [List.length_append, List.length_singleton] at heq
    have hfour : greetingPieces.length = 4 := rfl
    omega
  have hpast := hpieces past.length hlength
  rw [← hlater, List.append_assoc, List.take_left, hcloses] at hpast
  cases hpast

/-- A Close frame, and a Ping frame in the next piece. -/
def closeThenPing : List (Bytes × Bool) :=
  [([136, 128, 1, 2, 3, 4], false), ([137, 128, 1, 2, 3, 4], false)]

theorem ping_parsed_in_closeThenPing :
    validateUpgradeRequest upgradeRequest = true ∧
      parses (Runs.run deliver (processRest (handleUpgrade .create upgradeRequest))
        closeThenPing) = [[137, 128, 1, 2, 3, 4]] ∧
      parses (Runs.run deliver (processRest (handleUpgrade .create upgradeRequest))
        closeThenPing) ≠ parses .create := by
  decide +kernel

end HttpRaftKv.Http.HttpServer
