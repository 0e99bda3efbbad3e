import HabitatGraph.Daemon.Connection

/-! # Serving on standard input

The `mcp` command answers the lines of its standard input with the handler the daemon
uses, but with its own loop: the lines are those of the standard library, and a line is
skipped when nothing is left of it once it is trimmed.
-/

namespace HabitatGraph

open DelimitedChunks Utf8Lines

/-- Read bytes up to a line feed, or to the end. -/
def readUntil : Reader → Bytes → Bytes × Reader
  | [], buf => (buf, [])
  | available :: chunks, buf =>
      match available.1.findIdx? (· == newline) with
      | some i => (buf ++ available.1.take (i + 1), consume (available :: chunks) (i + 1))
      | none => readUntil chunks (buf ++ available.1)

/-- The text without the line feed at its end, and without a carriage return before it. -/
def stripEol (text : String) : String :=
  if text.toList.getLast? = some '\n' then String.ofList (stripLast '\r' text.toList.dropLast)
  else text

/-- How the command ends, and what it has written. -/
structure Exit where
  code : UInt8
  stdout : Bytes
deriving DecidableEq

namespace Server

variable (server : Server) (graph : Graph)

/-- Answer the lines of standard input for a number of reads. -/
def stdioLoop : Nat → Reader → Exit
  | 0, _ => ⟨0, []⟩
  | reads + 1, stdin =>
      match readUntil stdin [] with
      | ([], _) => ⟨0, []⟩
      | (raw, stdin') =>
          match decode? raw with
          | none => ⟨1, []⟩
          | some text =>
              let line := stripEol text
              if (trim line).isEmpty then stdioLoop reads stdin'
              else
                let response := server.handleJsonrpc graph line
                let rest := stdioLoop reads stdin'
                ⟨rest.code, writeLines (responseLines response) ++ rest.stdout⟩

/-- Serve the graph that was loaded. Every read but the last takes a byte. -/
def run (graph : Except GraphError Graph) (stdin : Reader) : Exit :=
  match graph with
  | .error _ => ⟨4, []⟩
  | .ok graph => server.stdioLoop graph (stdin.bytes.length + 1) stdin

end Server

/-! ## The lines of standard input -/

/-- What one read returns: a line with its line feed, or the rest. -/
theorem readUntil_spec (stdin : Reader) {buf : Bytes} (hbuf : newline ∉ buf) :
    match stdin.lines buf with
    | ([], rest) => readUntil stdin buf = (rest, [])
    | (line :: lines, rest) =>
        (readUntil stdin buf).1 = line.all ++ [newline] ∧
          (readUntil stdin buf).2.lines [] = (lines, rest) := by
  induction stdin generalizing buf with
  | nil => rfl
  | cons chunk chunks ih =>
      by_cases hmem : newline ∈ chunk.1
      · obtain ⟨line, rest, hchunk, hline⟩ := List.eq_append_cons_of_mem hmem
        rw [lines_consume hline hchunk, readUntil, hchunk, findIdx?_of_line hline]
        exact ⟨by simp [Line.all, List.take_append], rfl⟩
      · have hlines : Reader.lines (chunk :: chunks) buf =
            Reader.lines chunks (buf ++ chunk.1) := arrivals_of_notMem hmem
        rw [hlines, readUntil, findIdx?_of_notMem hmem]
        apply ih
        rw [List.mem_append, not_or]
        exact ⟨hbuf, hmem⟩

theorem asciiByte_newline : asciiByte '\n' = newline := rfl

/-- The lines a reader delivers, as the lines of the text it delivers. -/
def Delivers (stdin : Reader) (lines : List (List Char)) (rest : List Char) : Prop :=
  (stdin.lines []).1.map Line.all = lines.map encode ∧ (stdin.lines []).2 = encode rest

theorem delivers_cut {stdin : Reader} {chars : List Char} (hbytes : stdin.bytes = encode chars) :
    Delivers stdin (cut '\n' chars).1 (cut '\n' chars).2 := by
  have hcut := lines_cut stdin
  rw [hbytes, ← asciiByte_newline, cut_encode (by decide), Prod.mk.injEq] at hcut
  exact hcut

theorem stripEol_line (line : List Char) :
    stripEol (String.ofList (line ++ ['\n'])) = String.ofList (stripLast '\r' line) := by
  rw [stripEol, String.toList_ofList, List.getLast?_concat, if_pos rfl, List.dropLast_concat]

theorem stripEol_rest {rest : List Char} (hrest : '\n' ∉ rest) :
    stripEol (String.ofList rest) = String.ofList rest := by
  rw [stripEol, String.toList_ofList, if_neg]
  intro hlast
  exact hrest (List.mem_of_getLast? hlast)

namespace Server

variable (server : Server) (graph : Graph)

/-- What is written for a line of text. -/
def textReply (line : String) : List String :=
  if (trim line).isEmpty then [] else responseLines (server.handleJsonrpc graph line)

/-- One read of a text that is not empty. -/
theorem stdioLoop_step {reads : Nat} {stdin : Reader} {text : List Char}
    (hread : (readUntil stdin []).1 = encode text) (htext : text ≠ []) :
    server.stdioLoop graph (reads + 1) stdin =
      ⟨(server.stdioLoop graph reads (readUntil stdin []).2).code,
        writeLines (server.textReply graph (stripEol (String.ofList text))) ++
          (server.stdioLoop graph reads (readUntil stdin []).2).stdout⟩ := by
  have hbytes : encode text ≠ [] := by
    cases text with
    | nil => exact absurd rfl htext
    | cons ch text =>
        rw [encode_cons]
        exact List.append_ne_nil_of_left_ne_nil String.utf8EncodeChar_ne_nil _
  rw [stdioLoop]
  generalize readUntil stdin [] = result at hread ⊢
  obtain ⟨raw, stdin'⟩ := result
  dsimp only at hread
  subst hread
  split
  next heq => exact absurd (congrArg Prod.fst heq) hbytes
  next raw stdin'' heq =>
    cases heq
    rw [decode?_encode]
    dsimp only [textReply]
    split
    next => rfl
    next => rfl

theorem stdioLoop_nil (reads : Nat) : server.stdioLoop graph reads [] = ⟨0, []⟩ := by
  cases reads <;> rfl

/-- Input that ends without a line feed is answered once, and no input is not. -/
theorem stdioLoop_rest {reads : Nat} {stdin : Reader} {rest : List Char}
    (hdelivers : Delivers stdin [] rest) (hrest : '\n' ∉ rest) (hreads : rest.length < reads) :
    server.stdioLoop graph reads stdin =
      ⟨0, writeLines ((if rest.isEmpty then [] else [rest]).flatMap
        fun line => server.textReply graph (String.ofList line))⟩ := by
  have hspec := readUntil_spec stdin (List.not_mem_nil (a := newline))
  obtain ⟨hlines, hend⟩ := hdelivers
  rw [List.map_nil, List.map_eq_nil_iff] at hlines
  rw [← Prod.eta (stdin.lines []), hlines, hend] at hspec
  cases reads with
  | zero => omega
  | succ reads =>
      cases rest with
      | nil =>
          rw [stdioLoop, hspec]
          rfl
      | cons ch rest =>
          have hread : (readUntil stdin []).1 = encode (ch :: rest) := by rw [hspec]
          rw [server.stdioLoop_step graph hread (List.cons_ne_nil ch rest), hspec,
            stdioLoop_nil, stripEol_rest hrest]
          simp

/-- All lines of standard input are answered, and the command ends well. -/
theorem stdioLoop_eq {reads : Nat} {stdin : Reader} {lines : List (List Char)}
    {rest : List Char} (hdelivers : Delivers stdin lines rest) (hrest : '\n' ∉ rest)
    (hreads : lines.length + rest.length < reads) :
    server.stdioLoop graph reads stdin =
      ⟨0, writeLines ((lines.map (stripLast '\r') ++ if rest.isEmpty then [] else [rest]).flatMap
        fun line => server.textReply graph (String.ofList line))⟩ := by
  induction lines generalizing reads stdin with
  | nil =>
      rw [List.length_nil, Nat.zero_add] at hreads
      exact server.stdioLoop_rest graph hdelivers hrest hreads
  | cons line lines ih =>
      have hspec := readUntil_spec stdin (List.not_mem_nil (a := newline))
      obtain ⟨hlines, hend⟩ := hdelivers
      cases hstream : (stdin.lines []).1 with
      | nil =>
          rw [hstream] at hlines
          cases hlines
      | cons first others =>
          rw [hstream, List.map_cons, List.map_cons, List.cons.injEq] at hlines
          rw [← Prod.eta (stdin.lines []), hstream] at hspec
          have hread : (readUntil stdin []).1 = encode (line ++ ['\n']) := by
            rw [hspec.1, hlines.1, encode_append]
            rfl
          have hnext : Delivers (readUntil stdin []).2 lines rest := by
            rw [Delivers, hspec.2]
            exact ⟨hlines.2, hend⟩
          cases reads with
          | zero => omega
          | succ reads =>
              rw [List.length_cons] at hreads
              rw [server.stdioLoop_step graph hread (by simp), ih hnext (by omega), stripEol_line]
              simp

/-- The command answers every line of its input. -/
theorem run_eq {stdin : Reader} {chars : List Char} (hbytes : stdin.bytes = encode chars) :
    server.run (.ok graph) stdin =
      ⟨0, writeLines ((textLines chars).flatMap
        fun line => server.textReply graph (String.ofList line))⟩ := by
  have hcut := length_cut_le '\n' chars
  have hencode := length_le_encode chars
  apply stdioLoop_eq server graph (delivers_cut hbytes) (notMem_cut_snd chars)
  rw [hbytes]
  omega

end Server

end HabitatGraph
