import HabitatGraph.Core.Text
import HabitatGraph.Daemon.BoundedLine
import HabitatGraph.Serve.Jsonrpc

/-! # A connection

The daemon answers the lines of a connection one by one from its warm state. A line of
blanks is skipped, and a line that is too long is answered with an error that ends the
connection.
-/

namespace HabitatGraph

open DelimitedChunks Utf8Lines

/-- The longest line, in bytes. -/
def maxLineBytes : Nat := 1048576

def lineTooLongResponse : String :=
  "\x7b\"jsonrpc\":\"2.0\",\"id\":null,\"error\":\x7b\"code\":-32700," ++
    "\"message\":\"line exceeded maximum length\"\x7d\x7d"

/-- The lines written for a response: none when it is empty. -/
def responseLines (response : String) : List String := if response.isEmpty then [] else [response]

/-- Texts with a line feed after each. -/
def writeLines (texts : List String) : Bytes := frames newline (texts.map asBytes)

@[simp] theorem writeLines_append (texts texts' : List String) :
    writeLines (texts ++ texts') = writeLines texts ++ writeLines texts' := by
  rw [writeLines, List.map_append, frames, List.flatMap_append]
  rfl

namespace Server

variable (server : Server) (graph : Graph)

/-- What a connection writes in answer to the lines read in some calls. -/
def connLoop : Nat → Reader → Bytes
  | 0, _ => []
  | calls + 1, reader =>
      match readBoundedLine reader maxLineBytes with
      | (.ok none, _) => []
      | (.ok (some raw), reader') =>
          if raw.all isAsciiWhitespace then connLoop calls reader'
          else
            let line := fromUtf8Lossy raw
            let response := server.handleJsonrpc graph line
            writeLines (responseLines response) ++ connLoop calls reader'
      | (.error e, _) =>
          match e.kind with
          | .invalidData => writeLines [lineTooLongResponse]

/-- What a connection writes. Every call but the last reads a byte. -/
def handleConn (reader : Reader) : Bytes := server.connLoop graph (reader.bytes.length + 1) reader

/-- What is written for the result of one call. -/
def resultLines : ReadResult → List String
  | .ok none => []
  | .ok (some raw) =>
      if raw.all isAsciiWhitespace then []
      else responseLines (server.handleJsonrpc graph (fromUtf8Lossy raw))
  | .error _ => [lineTooLongResponse]

theorem connLoop_eq (calls : Nat) (reader : Reader) :
    server.connLoop graph calls reader =
      writeLines ((readResults maxLineBytes calls reader).flatMap (server.resultLines graph)) := by
  induction calls generalizing reader with
  | zero => rfl
  | succ calls ih =>
      rw [connLoop, readResults]
      generalize readBoundedLine reader maxLineBytes = result
      rcases result with ⟨e | (_ | raw), reader'⟩
      · simp only [List.flatMap_cons, List.flatMap_nil, resultLines, List.append_nil]
      · rfl
      · simp only [List.flatMap_cons, resultLines]
        split
        next => rw [List.nil_append, ih]
        next => rw [writeLines_append, ih]

/-- A connection is answered to its end. -/
theorem handleConn_eq (reader : Reader) :
    server.handleConn graph reader =
      writeLines ((boundedResults maxLineBytes lineContent
        (fun line => line.carried.length ≤ maxLineBytes) (reader.lines []).1
        (reader.lines []).2).flatMap (server.resultLines graph)) := by
  have hlength := length_boundedResults_le maxLineBytes lineContent
    (fun line => line.carried.length ≤ maxLineBytes) (reader.lines []).1 (reader.lines []).2
  have hbytes := length_lines_le reader
  rw [handleConn, connLoop_eq, readResults_eq, List.take_of_length_le (by omega)]

/-- What is written for a line. -/
def lineReply (raw : Bytes) : List String :=
  if raw.all isAsciiWhitespace then []
  else responseLines (server.handleJsonrpc graph (fromUtf8Lossy raw))

/-- Lines that all fit are answered one by one. -/
theorem boundedResults_fits {lines : List (Line UInt8)} {rest : Bytes}
    (hlines : ∀ line ∈ lines, line.carried.length ≤ maxLineBytes)
    (hrest : rest.length ≤ maxLineBytes) :
    (boundedResults maxLineBytes lineContent (fun line => line.carried.length ≤ maxLineBytes)
        lines rest).flatMap (server.resultLines graph) =
      (lines.map lineContent ++ if rest.isEmpty then [] else [rest]).flatMap
        (server.lineReply graph) := by
  induction lines with
  | nil =>
      rw [boundedResults, if_neg (Nat.not_lt.mpr hrest)]
      split <;> simp [resultLines, lineReply]
  | cons line lines ih =>
      rw [List.forall_mem_cons] at hlines
      rw [boundedResults, if_pos hlines.1, List.flatMap_cons, ih hlines.2]
      rfl

/-- A line that does not fit is answered with an error. -/
theorem boundedResults_over {lines : List (Line UInt8)} (rest : Bytes) {line : Line UInt8}
    (hmem : line ∈ lines) (hover : ¬ line.carried.length ≤ maxLineBytes) :
    lineTooLongResponse ∈ (boundedResults maxLineBytes lineContent
      (fun line => line.carried.length ≤ maxLineBytes) lines rest).flatMap
        (server.resultLines graph) := by
  induction lines with
  | nil => cases hmem
  | cons first lines ih =>
      rw [boundedResults]
      split
      next hfits =>
        rw [List.flatMap_cons, List.mem_append]
        cases hmem with
        | head => exact absurd hfits hover
        | tail _ hmem => exact Or.inr (ih hmem)
      next => simp [resultLines]

end Server

end HabitatGraph
