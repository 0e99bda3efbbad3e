import HabitatGraph.Cli.McpCommand
import Mathlib.Algebra.Order.BigOperators.Group.List

/-! # One codec, two transports

The daemon and the command answer a line with the same handler. What they write is the
same when they agree on which lines are blank, and when the daemon does not give up a
line for a carriage return that arrives apart from its line feed.
-/

namespace HabitatGraph

open DelimitedChunks Utf8Lines

/-- What both transports rely on of the JSON library: a value is printed on one line, a
text of blanks is not JSON, and a value that is printed as the daemon's answer to a long
line is that answer. -/
structure SerdeLine.Sound (serde : SerdeLine) : Prop where
  oneLine : ∀ value, '\n' ∉ (serde.display value).toList
  nonempty : ∀ value, serde.display value ≠ ""
  blankFails : ∀ text, text.toList.all isWhitespace → ∃ e, serde.fromStr text = .error e
  denotes : ∀ value, serde.display value = lineTooLongResponse →
    value.errorCode = some (jsonInt parseError) ∧
      value.errorMessage = some (.string "line exceeded maximum length")

/-- The blanks of the daemon, as characters. -/
def isAsciiBlank (ch : Char) : Bool :=
  ch == ' ' || ch == '\t' || ch == '\n' || ch == '\x0C' || ch == '\r'

theorem asciiByte_beq {ch ch' : Char} (hch : ch.toNat < 128) (hch' : ch'.toNat < 128) :
    (asciiByte ch == asciiByte ch') = (ch == ch') := by
  rw [Bool.eq_iff_iff, beq_iff_eq, beq_iff_eq]
  exact ⟨asciiByte_inj hch hch', fun heq => by rw [heq]⟩

theorem lt_of_isAsciiBlank {ch : Char} (h : isAsciiBlank ch) : ch.toNat < 128 := by
  simp only [isAsciiBlank, Bool.or_eq_true, beq_iff_eq] at h
  rcases h with (((rfl | rfl) | rfl) | rfl) | rfl <;> decide

theorem all_isAsciiWhitespace_encode (chars : List Char) :
    (encode chars).all isAsciiWhitespace = chars.all isAsciiBlank := by
  have hlt : ∀ byte, isAsciiWhitespace byte → byte.toNat < 128 := by
    intro byte hbyte
    simp only [isAsciiWhitespace, Bool.or_eq_true, beq_iff_eq] at hbyte
    rcases hbyte with (((rfl | rfl) | rfl) | rfl) | rfl <;> decide
  rw [all_encode hlt]
  congr 1
  funext ch
  by_cases hch : ch.toNat < 128
  · have hspace : isAsciiWhitespace (asciiByte ch) =
        (asciiByte ch == asciiByte ' ' || asciiByte ch == asciiByte '\t' ||
          asciiByte ch == asciiByte '\n' || asciiByte ch == asciiByte '\x0C' ||
          asciiByte ch == asciiByte '\r') := rfl
    simp only [hch, decide_true, Bool.true_and, hspace]
    rw [asciiByte_beq hch (by decide), asciiByte_beq hch (by decide), asciiByte_beq hch (by decide),
      asciiByte_beq hch (by decide), asciiByte_beq hch (by decide), isAsciiBlank]
  · simp only [hch, decide_false, Bool.false_and]
    cases hblank : isAsciiBlank ch with
    | false => rfl
    | true => exact absurd (lt_of_isAsciiBlank hblank) hch

theorem isWhitespace_of_isAsciiBlank {ch : Char} (h : isAsciiBlank ch) : isWhitespace ch := by
  simp only [isAsciiBlank, Bool.or_eq_true, beq_iff_eq] at h
  rcases h with (((rfl | rfl) | rfl) | rfl) | rfl <;> decide

/-- The bytes a reader delivers are the lines of a text. -/
theorem contents_eq {reader : Reader} {chars : List Char} (hbytes : reader.bytes = encode chars) :
    reader.contents = (textLines chars).map encode := by
  obtain ⟨hlines, hrest⟩ := delivers_cut hbytes
  have hcontent : (reader.lines []).1.map lineContent =
      ((cut '\n' chars).1.map (stripLast '\r')).map encode := by
    calc (reader.lines []).1.map lineContent
        = ((reader.lines []).1.map Line.all).map stripCarriageReturn := by
          rw [List.map_map]
          rfl
      _ = ((cut '\n' chars).1.map (stripLast '\r')).map encode := by
          rw [hlines, List.map_map, List.map_map]
          apply List.map_congr_left
          intro line _
          exact stripLast_encode (d := '\r') (by decide) line
  rw [Reader.contents, hcontent, hrest, textLines, List.map_append]
  congr 1
  cases (cut '\n' chars).2 with
  | nil => rfl
  | cons ch rest =>
      rw [if_neg, if_neg]
      · rfl
      · simp
      · simp

theorem asBytes_eq_encode (s : String) : asBytes s = encode s.toList := by
  rw [asBytes, ← String.utf8Encode_toList]
  exact List.toList_data_toByteArray

/-- What is written on lines can be told apart. -/
theorem writeLines_inj {texts texts' : List String} (htexts : ∀ text ∈ texts, '\n' ∉ text.toList)
    (htexts' : ∀ text ∈ texts', '\n' ∉ text.toList) :
    writeLines texts = writeLines texts' ↔ texts = texts' := by
  have hframe : ∀ texts : List String, (∀ text ∈ texts, '\n' ∉ text.toList) →
      ∀ line ∈ texts.map asBytes, newline ∉ line := by
    intro texts htexts line hline
    obtain ⟨text, htext, rfl⟩ := List.mem_map.mp hline
    rw [asBytes_eq_encode, encode, List.mem_flatMap]
    intro ⟨ch, hch, hmem⟩
    rw [← asciiByte_newline, mem_encodeChar_iff (by decide)] at hmem
    exact htexts text htext (hmem ▸ hch)
  rw [writeLines, writeLines, frames_inj (hframe texts htexts) (hframe texts' htexts'),
    List.map_inj_right]
  exact fun _ _ heq => asBytes_injective heq

/-- Both transports skip the same lines, and what is carried of a line that is not too
long is not too long either. -/
structure Alike (reader : Reader) (chars : List Char) : Prop where
  blanks : ∀ line ∈ textLines chars, line.all isWhitespace → line.all isAsciiBlank
  carried : ∀ line ∈ (reader.lines []).1, line.carried.length ≤ maxLineBytes

/-- No line is longer than the limit. -/
structure WithinLimit (reader : Reader) : Prop where
  lines : ∀ line ∈ (reader.lines []).1, (lineContent line).length ≤ maxLineBytes
  rest : (reader.lines []).2.length ≤ maxLineBytes

namespace Server

variable (server : Server) (graph : Graph)

/-- What the daemon writes for a line of text. -/
theorem lineReply_encode (line : List Char) :
    server.lineReply graph (encode line) =
      if line.all isAsciiBlank then []
      else responseLines (server.handleJsonrpc graph (String.ofList line)) := by
  rw [lineReply, all_isAsciiWhitespace_encode, fromUtf8Lossy_encode]

/-- What the command writes for a line of text. -/
theorem textReply_ofList (line : List Char) :
    server.textReply graph (String.ofList line) =
      if line.all isWhitespace then []
      else responseLines (server.handleJsonrpc graph (String.ofList line)) := by
  simp only [textReply, trim_isEmpty_iff, String.toList_ofList]

variable {server}

/-- What is written for a line is the text of its response. -/
theorem responseLines_handleJsonrpc (hserde : server.serde.Sound) (line : String) :
    responseLines (server.handleJsonrpc graph line) =
      ((server.respond graph line).map server.serde.display).toList := by
  rw [handleJsonrpc]
  cases server.respond graph line with
  | none => rfl
  | some response =>
      have hne : (server.serde.display response).isEmpty = false := by
        rw [Bool.eq_false_iff, ne_eq, String.isEmpty_iff]
        exact hserde.nonempty response
      simp [responseLines, hne]

theorem notMem_responseLines (hserde : server.serde.Sound) {line text : String}
    (htext : text ∈ responseLines (server.handleJsonrpc graph line)) :
    '\n' ∉ text.toList ∧ text ≠ lineTooLongResponse := by
  rw [responseLines_handleJsonrpc graph hserde] at htext
  simp only [Option.mem_toList, Option.map_eq_some_iff] at htext
  obtain ⟨response, hresponse, rfl⟩ := htext
  refine ⟨hserde.oneLine response, fun heq => ?_⟩
  cases hid : server.responseId line with
  | none =>
      rw [server.respond_of_notification graph hid] at hresponse
      cases hresponse
  | some id =>
      obtain ⟨answer, hanswer, hanswers⟩ := server.respond_of_request graph hid
      rw [hanswer, Option.some.injEq] at hresponse
      subst hresponse
      obtain ⟨hcode, hmessage⟩ := hserde.denotes answer heq
      rw [hanswers.parseErrors hcode] at hmessage
      simp [parseErrorMessage] at hmessage

/-- A line of blanks is answered with one line once it is not skipped. -/
theorem length_responseLines_blank (hserde : server.serde.Sound) {line : List Char}
    (hblank : line.all isWhitespace) :
    (responseLines (server.handleJsonrpc graph (String.ofList line))).length = 1 := by
  obtain ⟨e, he⟩ := hserde.blankFails (String.ofList line) (by rwa [String.toList_ofList])
  rw [responseLines_handleJsonrpc graph hserde, respond, he]
  rfl

/-- The command never writes the daemon's answer to a long line. -/
theorem notMem_textReplies (hserde : server.serde.Sound) {lines : List (List Char)} {text : String}
    (htext : text ∈ lines.flatMap fun line => server.textReply graph (String.ofList line)) :
    '\n' ∉ text.toList ∧ text ≠ lineTooLongResponse := by
  obtain ⟨line, _, htext⟩ := List.mem_flatMap.mp htext
  rw [textReply] at htext
  split at htext
  next => cases htext
  next => exact notMem_responseLines graph hserde htext

/-- Replies to the same lines are the same exactly when the same lines are skipped. -/
theorem replies_eq_iff (hserde : server.serde.Sound) (lines : List (List Char)) :
    (lines.flatMap fun line => server.lineReply graph (encode line)) =
        (lines.flatMap fun line => server.textReply graph (String.ofList line)) ↔
      ∀ line ∈ lines, line.all isWhitespace → line.all isAsciiBlank := by
  have hblank : ∀ line : List Char, line.all isAsciiBlank → line.all isWhitespace := by
    intro line h
    rw [List.all_eq_true] at h ⊢
    exact fun ch hch => isWhitespace_of_isAsciiBlank (h ch hch)
  simp only [lineReply_encode, textReply_ofList]
  apply Iff.intro
  · intro heq line hline hwhitespace
    by_contra hnot
    have hless := List.sum_lt_sum (l := lines)
      (fun line => (if line.all isWhitespace then []
        else responseLines (server.handleJsonrpc graph (String.ofList line))).length)
      (fun line => (if line.all isAsciiBlank then []
        else responseLines (server.handleJsonrpc graph (String.ofList line))).length)
      (fun line _ => ?_) ⟨line, hline, ?_⟩
    · have hlength := congrArg List.length heq
      rw [List.length_flatMap, List.length_flatMap] at hlength
      omega
    · by_cases hascii : line.all isAsciiBlank
      · rw [if_pos hascii, if_pos (hblank line hascii)]
      · rw [if_neg hascii]
        split
        next => exact Nat.zero_le _
        next => exact Nat.le_refl _
    · rw [if_pos hwhitespace, if_neg hnot, length_responseLines_blank graph hserde hwhitespace]
      exact Nat.zero_lt_one
  · intro h
    apply List.flatMap_congr
    intro line hline
    by_cases hascii : line.all isAsciiBlank
    · rw [if_pos hascii, if_pos (hblank line hascii)]
    · rw [if_neg hascii, if_neg fun hwhitespace => hascii (h line hline hwhitespace)]

theorem notMem_resultLines (hserde : server.serde.Sound) {results : List ReadResult}
    {text : String} (htext : text ∈ results.flatMap (server.resultLines graph)) :
    '\n' ∉ text.toList := by
  obtain ⟨result, _, htext⟩ := List.mem_flatMap.mp htext
  match result with
  | .ok none => cases htext
  | .ok (some raw) =>
      rw [resultLines] at htext
      split at htext
      next => cases htext
      next => exact (notMem_responseLines graph hserde htext).1
  | .error _ =>
      rw [resultLines, List.mem_singleton] at htext
      rw [htext]
      decide

/-- Both transports write the same exactly when they skip the same lines and no carriage
return makes a line too long. -/
theorem handleConn_eq_run_iff (hserde : server.serde.Sound) {reader : Reader} {chars : List Char}
    (hbytes : reader.bytes = encode chars) (hlimit : WithinLimit reader) :
    server.handleConn graph reader = (server.run (.ok graph) reader).stdout ↔
      Alike reader chars := by
  rw [handleConn_eq, server.run_eq graph hbytes,
    writeLines_inj (fun _ htext => notMem_resultLines graph hserde htext)
      (fun _ htext => (notMem_textReplies graph hserde htext).1)]
  by_cases hcarried : ∀ line ∈ (reader.lines []).1, line.carried.length ≤ maxLineBytes
  · have hcontents : (reader.lines []).1.map lineContent ++
        (if (reader.lines []).2.isEmpty then [] else [(reader.lines []).2]) =
        (textLines chars).map encode := contents_eq hbytes
    rw [server.boundedResults_fits graph hcarried hlimit.rest, hcontents, List.flatMap_map,
      replies_eq_iff graph hserde]
    exact ⟨fun hblanks => ⟨hblanks, hcarried⟩, fun halike => halike.blanks⟩
  · apply iff_of_false _ fun halike => hcarried halike.carried
    simp only [not_forall] at hcarried
    obtain ⟨line, hline, hover⟩ := hcarried
    intro heq
    have hmem := server.boundedResults_over graph (reader.lines []).2 hline hover
    rw [heq] at hmem
    exact (notMem_textReplies graph hserde hmem).2 rfl

/-! ## Replies in the order of the requests -/

variable (server)

/-- The ids of the lines that are requests, `null` for a line that is not JSON. -/
def requestIds (chars : List Char) : List JsonValue :=
  ((textLines chars).filter fun line => !line.all isWhitespace).filterMap fun line =>
    server.responseId (String.ofList line)

/-- One line is written for each request, in order: the text of an object that carries
its id. -/
def AnswersLines (chars : List Char) (output : Bytes) : Prop :=
  ∃ responses : List JsonValue,
    output = writeLines (responses.map server.serde.display) ∧
      (∀ response ∈ responses, '\n' ∉ (server.serde.display response).toList) ∧
      List.Forall₂ Answers responses (server.requestIds chars)

variable {server}

/-- The replies to some lines are the responses to the requests among them. -/
theorem textReplies_eq (hserde : server.serde.Sound) (lines : List (List Char)) :
    ∃ responses : List JsonValue,
      (lines.flatMap fun line => server.textReply graph (String.ofList line)) =
          responses.map server.serde.display ∧
        List.Forall₂ Answers responses
          ((lines.filter fun line => !line.all isWhitespace).filterMap fun line =>
            server.responseId (String.ofList line)) := by
  induction lines with
  | nil => exact ⟨[], rfl, .nil⟩
  | cons line lines ih =>
      obtain ⟨responses, hreplies, hanswers⟩ := ih
      rw [List.flatMap_cons, hreplies, textReply_ofList]
      by_cases hblank : line.all isWhitespace
      · refine ⟨responses, by rw [if_pos hblank, List.nil_append], ?_⟩
        rwa [List.filter_cons_of_neg (by simp [hblank])]
      · rw [if_neg hblank, List.filter_cons_of_pos (by simp [hblank]),
          responseLines_handleJsonrpc graph hserde]
        cases hid : server.responseId (String.ofList line) with
        | none =>
            refine ⟨responses, ?_, ?_⟩
            · rw [server.respond_of_notification graph hid]
              rfl
            · rw [List.filterMap_cons, hid]
              exact hanswers
        | some id =>
            obtain ⟨response, hresponse, hanswer⟩ := server.respond_of_request graph hid
            refine ⟨response :: responses, ?_, ?_⟩
            · rw [hresponse]
              rfl
            · rw [List.filterMap_cons, hid]
              exact .cons hanswer hanswers

/-- The command answers every request among its lines. -/
theorem answersLines_run (hserde : server.serde.Sound) {stdin : Reader} {chars : List Char}
    (hbytes : stdin.bytes = encode chars) :
    server.AnswersLines chars (server.run (.ok graph) stdin).stdout := by
  obtain ⟨responses, hreplies, hanswers⟩ := textReplies_eq graph hserde (textLines chars)
  refine ⟨responses, ?_, fun response _ => hserde.oneLine response, hanswers⟩
  rw [server.run_eq graph hbytes, hreplies]

/-- The transports write the same, a reply to each request, exactly when they skip the
same lines and no carriage return makes a line too long. The stream is the encoding of a
text, in any chunks and without a line that is too long; the library prints on one line. -/
theorem transports_agree_iff (hserde : server.serde.Sound) {reader : Reader} {chars : List Char}
    (hbytes : reader.bytes = encode chars) (hlimit : WithinLimit reader) :
    server.handleConn graph reader = (server.run (.ok graph) reader).stdout ∧
        server.AnswersLines chars (server.handleConn graph reader) ↔
      Alike reader chars := by
  rw [← handleConn_eq_run_iff graph hserde hbytes hlimit]
  apply and_iff_left_of_imp
  intro heq
  rw [heq]
  exact answersLines_run graph hserde hbytes

end Server

/-- A JSON library that knows one request, and prints without escapes. -/
def plainSerde : SerdeLine where
  toStringPretty value := .ok (String.ofList (value.pretty []))
  fromStr text :=
    if text = "\x7b\"id\":7\x7d" then .ok (.object [("id", .number (.integer 7))])
    else .error "expected value"
  display value :=
    let text := String.ofList (value.compact.filter fun ch => ch ≠ '\n')
    if text = "" ∨ text = lineTooLongResponse then "null" else text
  toStr value := .ok (String.ofList value.compact)

theorem plainSerde_sound : plainSerde.Sound where
  oneLine value := by
    unfold plainSerde
    dsimp only
    split
    next => decide
    next => simp [List.mem_filter]
  nonempty value := by
    unfold plainSerde
    dsimp only
    split
    next => decide
    next hne => exact fun heq => hne (Or.inl heq)
  blankFails text htext := by
    refine ⟨"expected value", if_neg fun heq => ?_⟩
    rw [heq] at htext
    exact absurd htext (by decide)
  denotes value hvalue := by
    unfold plainSerde at hvalue
    dsimp only at hvalue
    split at hvalue
    next => exact absurd hvalue (by decide)
    next hne => exact absurd (Or.inr hvalue) hne

def plainServer : Server := ⟨plainSerde, id, asciiTables, fun _ => ""⟩

/-- The bytes of a text in one chunk. -/
def textReader (text : List Char) (htext : encode text ≠ []) : Reader := [⟨encode text, htext⟩]

theorem transports_agree_iff_request :
    plainServer.handleConn Graph.new (textReader "\x7b\"id\":7\x7d\n".toList (by decide)) =
          (plainServer.run (.ok Graph.new)
            (textReader "\x7b\"id\":7\x7d\n".toList (by decide))).stdout ∧
        plainServer.AnswersLines "\x7b\"id\":7\x7d\n".toList
          (plainServer.handleConn Graph.new
            (textReader "\x7b\"id\":7\x7d\n".toList (by decide))) ↔
      Alike (textReader "\x7b\"id\":7\x7d\n".toList (by decide))
        "\x7b\"id\":7\x7d\n".toList :=
  Server.transports_agree_iff Graph.new plainSerde_sound (by decide) ⟨by decide, by decide⟩

/-- A line that is a no-break space is answered by the daemon and skipped by the command. -/
theorem transports_disagree :
    ¬ ∀ (server : Server) graph reader chars, server.serde.Sound → reader.bytes = encode chars →
      WithinLimit reader →
        server.handleConn graph reader = (server.run (.ok graph) reader).stdout := by
  intro h
  have hagree := h plainServer Graph.new (textReader ['\u00A0', '\n'] (by decide))
    ['\u00A0', '\n'] plainSerde_sound (by decide) ⟨by decide, by decide⟩
  have halike : Alike (textReader ['\u00A0', '\n'] (by decide)) ['\u00A0', '\n'] :=
    (Server.handleConn_eq_run_iff Graph.new plainSerde_sound (by decide)
      ⟨by decide, by decide⟩).mp hagree
  exact absurd (halike.blanks ['\u00A0'] (by decide) (by decide)) (by decide)

end HabitatGraph
