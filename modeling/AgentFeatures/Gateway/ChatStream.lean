import AgentFeatures.Gateway.Handlers
import AgentFeatures.Library.Framing
import AgentFeatures.Library.Text

/-! The chat's event stream, from the server's generator to the client's event handler. -/

namespace AgentFeatures

open Library

namespace ChatStream

-----------------------------------------------------------------------------------------
-- The server
-----------------------------------------------------------------------------------------

/-- `"data: "`. -/
def dataPrefix : Text := ['d', 'a', 't', 'a', ':', ' ']

/-- `"\n\n"`. -/
def blankLine : Separator Char := ⟨'\n', ['\n']⟩

/-- The frame `sse` yields for one event, without the blank line behind it. -/
def frame (runtime : Runtime) (event : Json) : Text := dataPrefix ++ (runtime.dumps event).toList

/-- The text `sse` yields for some events. -/
def sse (runtime : Runtime) (events : List Json) : Text :=
  (events.map (frame runtime)).flatMap (· ++ blankLine.text)

/-- The response's body: the text in UTF-8. -/
def encode (text : Text) : List UInt8 := text.flatMap String.utf8EncodeChar

-----------------------------------------------------------------------------------------
-- The client
-----------------------------------------------------------------------------------------

/-- A `TextDecoder` that is fed with `{stream: true}`: bytes below 0x80 stand for themselves
and leave nothing pending.
-/
structure TextDecoder where
  Pending : Type
  none : Pending
  decode : Pending → List UInt8 → Text × Pending
  decode_ascii
    : ∀ bytes : List UInt8,
        (∀ byte ∈ bytes, byte < 0x80)
        → decode none bytes = (bytes.map fun byte => Char.ofNat byte.toNat, none)

/-- `JSON.parse`, `none` where it throws. -/
abbrev JsonParse := Text → Option Json

/-- The event of one chunk between blank lines, if it is a data line that parses. -/
def chunkEvent (parse : JsonParse) (chunk : Text) : Option Json :=
  if dataPrefix.isPrefixOf chunk then parse (chunk.drop 6) else none

/-- What `chatSend` keeps between two reads, with the events handed to `handleChatEvent`. -/
structure Client (decoder : TextDecoder) where
  dec : decoder.Pending
  buf : Text := []
  handled : List Json := []

/-- One turn of the read loop: decodes a value and handles the chunks it completes. -/
def Client.read {decoder : TextDecoder} (parse : JsonParse) (client : Client decoder)
    (value : List UInt8)
    : Client decoder :=
  let (text, dec) := decoder.decode client.dec value
  let (chunks, buf) := blankLine.drain (client.buf ++ text)
  { dec, buf, handled := client.handled ++ chunks.filterMap (chunkEvent parse) }

/-- The read loop until the body is done. -/
def chatSend (decoder : TextDecoder) (parse : JsonParse) (values : List (List UInt8))
    : Client decoder :=
  values.foldl (Client.read parse) { dec := decoder.none }

-----------------------------------------------------------------------------------------
-- Nothing is lost
-----------------------------------------------------------------------------------------

/-- The text of ASCII bytes. -/
def asciiText (bytes : List UInt8) : Text := bytes.map fun byte => Char.ofNat byte.toNat

/-- ASCII characters are one byte each. -/
theorem encode_ascii {text : Text} (ascii : ∀ c ∈ text, c.toNat < 0x80)
    : encode text = text.map fun c => UInt8.ofNat c.toNat := by
  rw [encode, ← List.flatMap_singleton' (text.map _), List.flatMap_map]
  refine List.flatMap_congr fun c member => ?_
  have small : c.val.toNat ≤ 0x7f := Nat.le_of_lt_succ (ascii c member)
  exact if_pos small

/-- An encoded ASCII text has small bytes only. -/
theorem lt_of_mem_encode {text : Text} (ascii : ∀ c ∈ text, c.toNat < 0x80)
    : ∀ byte ∈ encode text, byte < 0x80 := by
  rw [encode_ascii ascii]
  intro byte member
  obtain ⟨c, inText, rfl⟩ := List.mem_map.mp member
  have small := ascii c inText
  rw [UInt8.lt_iff_toNat_lt]
  simp
  omega

/-- An encoded ASCII text is read back. -/
theorem asciiText_encode {text : Text} (ascii : ∀ c ∈ text, c.toNat < 0x80)
    : asciiText (encode text) = text := by
  rw [asciiText, encode_ascii ascii, List.map_map]
  refine (List.map_congr_left fun c member => ?_).trans (List.map_id text)
  have small : c.toNat < 256 := Nat.lt_trans (ascii c member) (by decide)
  simp [Nat.mod_eq_of_lt small]

/-- On ASCII values the client keeps the buffer of a reader of frames and handles its frames.
Witness: induction on the values, with the decoder between them.
-/
theorem foldl_read (decoder : TextDecoder) (parse : JsonParse) {values : List (List UInt8)}
    (ascii : ∀ value ∈ values, ∀ byte ∈ value, byte < 0x80)
    (state : List Text × Text)
    : values.foldl (Client.read parse)
        ({ dec := decoder.none, buf := state.2,
           handled := state.1.filterMap (chunkEvent parse) } : Client decoder)
      = (let last := (values.map asciiText).foldl blankLine.receive state
         { dec := decoder.none, buf := last.2,
           handled := last.1.filterMap (chunkEvent parse) }) := by
  induction values generalizing state with
  | nil => rfl
  | cons value rest ih =>
      have decoded := decoder.decode_ascii value (ascii value List.mem_cons_self)
      have later := ih (fun other member => ascii other (List.mem_cons_of_mem _ member))
        (blankLine.receive state (asciiText value))
      rw [List.foldl_cons, List.map_cons, List.foldl_cons, ← later]
      congr 1
      simp [Client.read, decoded, Separator.receive, asciiText]

/-- `json.dumps` prints the event in ASCII without control characters, and `JSON.parse` reads
it back.
-/
structure Prints (runtime : Runtime) (parse : JsonParse) (event : Json) : Prop where
  printable : ∀ c ∈ (runtime.dumps event).toList, 0x20 ≤ c.toNat ∧ c.toNat < 0x80
  parses : parse (runtime.dumps event).toList = some event

/-- A printed event has no line feed, and its frame is in ASCII. -/
theorem Prints.frame {runtime : Runtime} {parse : JsonParse} {event : Json}
    (prints : Prints runtime parse event)
    : '\n' ∉ frame runtime event
      ∧ (∀ c ∈ frame runtime event, c.toNat < 0x80)
      ∧ chunkEvent parse (frame runtime event) = some event := by
  refine ⟨?_, ?_, ?_⟩
  · intro member
    rcases List.mem_append.mp member with start | printed
    · exact absurd start (by decide)
    · exact absurd (prints.printable _ printed).1 (by decide)
  · intro c member
    rcases List.mem_append.mp member with start | printed
    · have small : dataPrefix.all (fun c => c.toNat < 0x80) = true := rfl
      exact of_decide_eq_true (List.all_eq_true.mp small c start)
    · exact (prints.printable c printed).2
  · have starts : dataPrefix.isPrefixOf (ChatStream.frame runtime event) :=
      List.isPrefixOf_iff_prefix.mpr (List.prefix_append _ _)
    rw [chunkEvent, if_pos starts]
    exact prints.parses

/-- The client hands over exactly the events the server wrote, in order, and ends with an empty
buffer, however the body is split. Witness: draining the whole stream gives its frames.
-/
theorem chatSend_receives (runtime : Runtime) (parse : JsonParse) (decoder : TextDecoder)
    {events : List Json} (prints : ∀ event ∈ events, Prints runtime parse event)
    {values : List (List UInt8)} (split : values.flatten = encode (sse runtime events))
    : (chatSend decoder parse values).handled = events
      ∧ (chatSend decoder parse values).buf = [] := by
  have ascii : ∀ c ∈ sse runtime events, c.toNat < 0x80 := by
    intro c member
    obtain ⟨text, inFrames, inText⟩ := List.mem_flatMap.mp member
    obtain ⟨event, inEvents, rfl⟩ := List.mem_map.mp inFrames
    rcases List.mem_append.mp inText with inFrame | inMark
    · exact (prints event inEvents).frame.2.1 c inFrame
    · have small : blankLine.text.all (fun c => c.toNat < 0x80) = true := rfl
      exact of_decide_eq_true (List.all_eq_true.mp small c inMark)
  have bytes : ∀ value ∈ values, ∀ byte ∈ value, byte < 0x80 := by
    intro value inValues byte inValue
    exact lt_of_mem_encode ascii byte (split ▸ List.mem_flatten.mpr ⟨value, inValues, inValue⟩)
  have arrived : (values.map asciiText).flatten = sse runtime events := by
    rw [← asciiText_encode ascii, ← split]
    exact List.map_flatten.symm
  have frames : blankLine.drain (sse runtime events) = (events.map (frame runtime), []) := by
    refine Separator.drain_frames fun text inFrames => ?_
    obtain ⟨event, inEvents, rfl⟩ := List.mem_map.mp inFrames
    exact (prints event inEvents).frame.1
  have received : (values.map asciiText).foldl blankLine.receive ([], [])
      = (events.map (frame runtime), []) := by
    have whole := Separator.foldl_receive blankLine (values.map asciiText) []
    rw [Separator.drain_none rfl, List.nil_append, arrived, frames] at whole
    exact whole
  have last := foldl_read decoder parse bytes ([], [])
  rw [received] at last
  have handled : (events.map (frame runtime)).filterMap (chunkEvent parse) = events := by
    rw [List.filterMap_map]
    refine (List.filterMap_congr fun event member => ?_).trans List.filterMap_some
    exact (prints event member).frame.2.2
  rw [chatSend]
  exact ⟨(congrArg Client.handled last).trans handled, congrArg Client.buf last⟩

/-- A decoder of ASCII bytes. -/
def asciiDecoder : TextDecoder where
  Pending := Unit
  none := ()
  decode _ bytes := (asciiText bytes, ())
  decode_ascii _ _ := rfl

/-- The one event `true` arrives although its frame is split inside the prefix and between
the two line feeds.
-/
theorem chatSend_receives_true
    : let runtime : Runtime := ⟨fun _ => none, fun _ => "true", fun _ => ""⟩
      let parse : JsonParse := fun text => if text = "true".toList then some (.bool true) else none
      let values : List (List UInt8) :=
        [[100, 97, 116], [97, 58, 32, 116, 114, 117, 101, 10], [10]]
      values.flatten = encode (sse runtime [.bool true])
      ∧ (chatSend asciiDecoder parse values).handled = [.bool true]
      ∧ (chatSend asciiDecoder parse values).buf = [] := by
  intro runtime parse values
  have split : values.flatten = encode (sse runtime [.bool true]) := by decide
  have prints : Prints runtime parse (.bool true) := by
    refine ⟨?_, if_pos rfl⟩
    have ascii : "true".toList.all (fun c => 0x20 ≤ c.toNat ∧ c.toNat < 0x80) = true := rfl
    exact fun c member => of_decide_eq_true (List.all_eq_true.mp ascii c member)
  exact ⟨split, chatSend_receives runtime parse asciiDecoder
    (fun event member => List.mem_singleton.mp member ▸ prints) split⟩

end ChatStream

end AgentFeatures
