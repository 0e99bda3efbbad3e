import HabitatGraph.Foundation.SelfDelimiting
import HabitatGraph.Source.Manifest
import Mathlib.Data.List.Infix

/-! # Content-addressed cache keys

A key is the digest of a stage id, its inputs and a config fingerprint, written
one after another. Each input stands behind its length; the stage and the config
are held apart by separators only, which leaves requests apart that do not absorb
one another.
-/

namespace HabitatGraph

open SelfDelimiting

/-- A 256-bit content-addressed cache key. -/
structure CacheKey where
  bytes : Vector UInt8 32
  deriving DecidableEq

/-- A slice of bytes; none is longer than `isize::MAX`. -/
structure Slice where
  bytes : Bytes
  length_lt : bytes.length < 2 ^ 63
  deriving DecidableEq

/-- The arguments of `CacheKey.derive`. -/
@[ext] structure DeriveArgs where
  stage : String
  inputs : List Slice
  config : Slice
  deriving DecidableEq

def stageSeparator : Bytes := asBytes "\x1fstage\x1f"

def configSeparator : Bytes := asBytes "\x1fconfig\x1f"

/-- An input behind its length, which is cut down to a `u64`. -/
def Slice.framed (input : Slice) : Bytes :=
  leBytes 8 (min input.bytes.length (2 ^ 64 - 1)) ++ input.bytes

namespace DeriveArgs

/-- What is hashed after the stage separator. -/
def payload (args : DeriveArgs) : Bytes :=
  args.inputs.flatMap Slice.framed ++ (configSeparator ++ args.config.bytes)

/-- The bytes fed to the hasher. -/
def stream (args : DeriveArgs) : Bytes :=
  asBytes args.stage ++ (stageSeparator ++ args.payload)

end DeriveArgs

/-- Derive a key from a stage id, its inputs and a config fingerprint. -/
def CacheKey.derive (blake3 : Bytes → Vector UInt8 32) (stage : String) (inputs : List Slice)
    (config : Slice) : CacheKey :=
  ⟨blake3 (DeriveArgs.stream ⟨stage, inputs, config⟩)⟩

/-! ## Framed inputs -/

theorem Slice.bytes_injective : Function.Injective Slice.bytes := by
  intro a b heq
  cases a
  cases b
  cases heq
  rfl

theorem Slice.framed_eq (input : Slice) : input.framed = SelfDelimiting.framed 8 input.bytes := by
  have hlength := input.length_lt
  rw [Slice.framed, SelfDelimiting.framed, min_eq_left (by omega)]

theorem selfDelimiting_slice : SelfDelimitingOn Set.univ Slice.framed := by
  intro a _ b _ rest rest' heq
  have ha := a.length_lt
  have hb := b.length_lt
  rw [a.framed_eq, b.framed_eq] at heq
  obtain ⟨hbytes, hrest⟩ := selfDelimitingOn_framed 8
    (by simp only [Set.mem_ofPred_eq]; omega) (by simp only [Set.mem_ofPred_eq]; omega) heq
  exact ⟨Slice.bytes_injective hbytes, hrest⟩

/-! ## The bytes of the separators -/

theorem stageSeparator_eq : stageSeparator = [0x1f, 0x73, 0x74, 0x61, 0x67, 0x65, 0x1f] := by
  decide +kernel

theorem configSeparator_eq :
    configSeparator = [0x1f, 0x63, 0x6f, 0x6e, 0x66, 0x69, 0x67, 0x1f] := by
  decide +kernel

theorem length_stageSeparator : stageSeparator.length = 7 := by rw [stageSeparator_eq]; rfl

theorem length_configSeparator : configSeparator.length = 8 := by rw [configSeparator_eq]; rfl

/-! ## Where two requests run together -/

/-- The length whose eight bytes spell the config separator. -/
def separatorLength : Nat := 0x1f6769666e6f631f

theorem leBytes_separatorLength : leBytes 8 separatorLength = configSeparator := by
  rw [configSeparator_eq]
  decide

theorem eq_separatorLength_of_leBytes {n : Nat} (hn : n < 2 ^ 63)
    (heq : leBytes 8 n = configSeparator) : n = separatorLength := by
  rw [← leBytes_separatorLength] at heq
  refine injOn_leBytes 8 ?_ ?_ heq
  · simp only [Set.mem_ofPred_eq]
    omega
  · simp [separatorLength]

namespace DeriveArgs

variable {args args' : DeriveArgs}

/-- The config holds what the other request hashes from its next input on. That
input is as long as the separator reads as a length. -/
def ConfigAbsorbs (args args' : DeriveArgs) : Prop :=
  args.stage = args'.stage ∧ ∃ input rest, args'.inputs = args.inputs ++ input :: rest ∧
    input.bytes.length = separatorLength ∧
    args.config.bytes = input.bytes ++ (rest.flatMap Slice.framed ++
      (configSeparator ++ args'.config.bytes))

/-- The payload holds the stage separator once more, and the other stage runs on
up to there; what follows is the other's payload. -/
def StageAbsorbs (args args' : DeriveArgs) : Prop :=
  ∃ extra : Bytes, asBytes args'.stage = asBytes args.stage ++ (stageSeparator ++ extra) ∧
    args.payload = extra ++ (stageSeparator ++ args'.payload)

/-- The other stage runs on up to the last byte of the separator, which is also
its first. -/
def StageOverlaps (args args' : DeriveArgs) : Prop :=
  asBytes args'.stage = asBytes args.stage ++ stageSeparator.dropLast ∧
    args.payload = stageSeparator.tail ++ args'.payload

/-- One request is read where the other was written. -/
def Absorbs (args args' : DeriveArgs) : Prop :=
  args.ConfigAbsorbs args' ∨ args.StageAbsorbs args' ∨ args.StageOverlaps args'

theorem ConfigAbsorbs.stream_eq (habsorbs : args.ConfigAbsorbs args') :
    args.stream = args'.stream := by
  obtain ⟨hstage, input, rest, hinputs, hlength, hconfig⟩ := habsorbs
  simp only [stream, payload, hstage, hinputs, hconfig, List.flatMap_append, List.flatMap_cons,
    input.framed_eq, SelfDelimiting.framed, hlength, leBytes_separatorLength, List.append_assoc]

theorem ConfigAbsorbs.ne (habsorbs : args.ConfigAbsorbs args') : args ≠ args' := by
  obtain ⟨-, input, rest, hinputs, -, -⟩ := habsorbs
  rintro rfl
  simp at hinputs

theorem StageAbsorbs.stream_eq (habsorbs : args.StageAbsorbs args') :
    args.stream = args'.stream := by
  obtain ⟨extra, hstage, hpayload⟩ := habsorbs
  simp only [stream, hstage, hpayload, List.append_assoc]

theorem StageAbsorbs.ne (habsorbs : args.StageAbsorbs args') : args ≠ args' := by
  obtain ⟨extra, hstage, -⟩ := habsorbs
  rintro rfl
  have hlength := congrArg List.length hstage
  simp only [List.length_append, length_stageSeparator] at hlength
  omega

theorem StageOverlaps.stream_eq (hoverlaps : args.StageOverlaps args') :
    args.stream = args'.stream := by
  obtain ⟨hstage, hpayload⟩ := hoverlaps
  have hseparator : stageSeparator ++ stageSeparator.tail =
      stageSeparator.dropLast ++ stageSeparator := by
    rw [stageSeparator_eq]
    rfl
  rw [stream, stream, hstage, hpayload, List.append_assoc, ← List.append_assoc stageSeparator,
    hseparator, List.append_assoc]

theorem StageOverlaps.ne (hoverlaps : args.StageOverlaps args') : args ≠ args' := by
  obtain ⟨hstage, -⟩ := hoverlaps
  rintro rfl
  have hlength := congrArg List.length hstage
  simp only [List.length_append, List.length_dropLast, length_stageSeparator] at hlength
  omega

theorem Absorbs.stream_eq (habsorbs : args.Absorbs args') : args.stream = args'.stream := by
  rcases habsorbs with h | h | h
  · exact h.stream_eq
  · exact h.stream_eq
  · exact h.stream_eq

theorem Absorbs.ne (habsorbs : args.Absorbs args') : args ≠ args' := by
  rcases habsorbs with h | h | h
  · exact h.ne
  · exact h.ne
  · exact h.ne

/-- A separator can stand again behind itself, or begin with its last byte. -/
theorem stageSeparator_append_eq {extra tail tail' : Bytes} (hextra : extra ≠ [])
    (heq : stageSeparator ++ tail = extra ++ (stageSeparator ++ tail')) :
    (∃ more, extra = stageSeparator ++ more ∧ tail = more ++ (stageSeparator ++ tail')) ∨
      (extra = stageSeparator.dropLast ∧ tail = stageSeparator.tail ++ tail') := by
  rcases List.append_eq_append_iff.mp heq with ⟨more, hmore, htail⟩ | ⟨left, hleft, htail⟩
  · exact Or.inl ⟨more, hmore, htail⟩
  · have hseparator := length_stageSeparator
    have hlength := congrArg List.length hleft
    rw [List.length_append, hseparator] at hlength
    have hpos := List.length_pos_iff.mpr hextra
    have hdrop : left = stageSeparator.drop extra.length := by simp [hleft]
    have htake : left = stageSeparator.take left.length := by
      have h := congrArg (List.take left.length) htail
      rw [List.take_left, List.take_append_of_le_length (by omega)] at h
      exact h.symm
    have hborder : ∀ n < 8, 0 < n → stageSeparator.drop n = stageSeparator.take (7 - n) →
        n = 6 ∨ n = 7 := by
      rw [stageSeparator_eq]
      decide
    have hagree : stageSeparator.drop extra.length = stageSeparator.take (7 - extra.length) := by
      rw [← hdrop, htake]
      congr 1
      omega
    rcases hborder extra.length (by omega) hpos hagree with hsix | hseven
    · right
      have hextra' : extra = stageSeparator.take 6 := by rw [← hsix, hleft, List.take_left]
      have hsame : stageSeparator.take 6 = stageSeparator.dropLast := by
        rw [stageSeparator_eq]
        rfl
      refine ⟨hextra'.trans hsame, ?_⟩
      have hhead : stageSeparator = stageSeparator.drop 6 ++ stageSeparator.tail := by
        rw [stageSeparator_eq]
        rfl
      rw [hdrop, hsix] at htail
      conv_lhs at htail => rw [hhead]
      rw [List.append_assoc] at htail
      exact (List.append_cancel_left htail).symm
    · left
      have hnil : left = [] := List.eq_nil_of_length_eq_zero (by omega)
      subst hnil
      exact ⟨[], by simpa using hleft.symm, htail.symm⟩

/-- A config separator that begins like a framed input has its length. -/
theorem length_of_configSeparator_append {input : Slice} {tail tail' : Bytes}
    (heq : configSeparator ++ tail = input.framed ++ tail') :
    input.bytes.length = separatorLength ∧ tail = input.bytes ++ tail' := by
  rw [input.framed_eq, SelfDelimiting.framed, List.append_assoc] at heq
  have hlength : configSeparator.length = (leBytes 8 input.bytes.length).length := by
    rw [length_leBytes, length_configSeparator]
  obtain ⟨hsep, htail⟩ := List.append_inj heq hlength
  exact ⟨eq_separatorLength_of_leBytes input.length_lt hsep.symm, htail⟩

/-- Under one stage only a config can stand for inputs. -/
theorem eq_or_configAbsorbs (hstage : args.stage = args'.stage)
    (hpayload : args.payload = args'.payload) :
    args = args' ∨ args.ConfigAbsorbs args' ∨ args'.ConfigAbsorbs args := by
  rcases selfDelimiting_slice.flatMap_append (fun _ _ => trivial) (fun _ _ => trivial)
    hpayload with ⟨more, hinputs, hrest⟩ | ⟨more, hinputs, hrest⟩
  · cases more with
    | nil =>
        have hconfig : args'.config.bytes = args.config.bytes := by simpa using hrest
        left
        exact DeriveArgs.ext hstage (by simpa using hinputs) (Slice.bytes_injective hconfig.symm)
    | cons input rest =>
        rw [List.flatMap_cons, List.append_assoc] at hrest
        obtain ⟨hlength, hconfig⟩ := length_of_configSeparator_append hrest
        exact Or.inr (Or.inr ⟨hstage.symm, input, rest, hinputs, hlength, hconfig⟩)
  · cases more with
    | nil =>
        have hconfig : args.config.bytes = args'.config.bytes := by simpa using hrest
        left
        exact DeriveArgs.ext hstage (by simpa using hinputs.symm) (Slice.bytes_injective hconfig)
    | cons input rest =>
        rw [List.flatMap_cons, List.append_assoc] at hrest
        obtain ⟨hlength, hconfig⟩ := length_of_configSeparator_append hrest
        exact Or.inr (Or.inl ⟨hstage, input, rest, hinputs, hlength, hconfig⟩)

theorem stageAbsorbs_or_stageOverlaps {extra : Bytes} (hextra : extra ≠ [])
    (hstage : asBytes args'.stage = asBytes args.stage ++ extra)
    (htail : stageSeparator ++ args.payload = extra ++ (stageSeparator ++ args'.payload)) :
    args.StageAbsorbs args' ∨ args.StageOverlaps args' := by
  rcases stageSeparator_append_eq hextra htail with ⟨more, rfl, hpayload⟩ | ⟨rfl, hpayload⟩
  · exact Or.inl ⟨more, hstage, hpayload⟩
  · exact Or.inr ⟨hstage, hpayload⟩

/-- A stage that starts the other's leaves equal streams one request, or lets one
absorb the other. -/
theorem eq_or_absorbs_of_stage_append {extra : Bytes}
    (hstage : asBytes args'.stage = asBytes args.stage ++ extra)
    (htail : stageSeparator ++ args.payload = extra ++ (stageSeparator ++ args'.payload)) :
    args = args' ∨ args.Absorbs args' ∨ args'.Absorbs args := by
  by_cases hextra : extra = []
  · subst hextra
    have hstage' : args.stage = args'.stage := asBytes_injective (by simpa using hstage.symm)
    rcases eq_or_configAbsorbs hstage' (by simpa using htail) with h | h | h
    · exact Or.inl h
    · exact Or.inr (Or.inl (Or.inl h))
    · exact Or.inr (Or.inr (Or.inl h))
  · exact Or.inr (Or.inl (Or.inr (stageAbsorbs_or_stageOverlaps hextra hstage htail)))

/-- Whatever feeds one stream is one request, or one absorbs the other. -/
theorem eq_or_absorbs_of_stream_eq (heq : args.stream = args'.stream) :
    args = args' ∨ args.Absorbs args' ∨ args'.Absorbs args := by
  rcases List.append_eq_append_iff.mp heq with ⟨extra, hstage, htail⟩ | ⟨extra, hstage, htail⟩
  · exact eq_or_absorbs_of_stage_append hstage htail
  · rcases eq_or_absorbs_of_stage_append hstage htail with h | h | h
    · exact Or.inl h.symm
    · exact Or.inr (Or.inr h)
    · exact Or.inr (Or.inl h)

/-- Requests that do not absorb each other are told apart by their streams. -/
theorem eq_of_stream_eq (hleft : ¬ args.Absorbs args') (hright : ¬ args'.Absorbs args)
    (heq : args.stream = args'.stream) : args = args' := by
  rcases eq_or_absorbs_of_stream_eq heq with h | h | h
  · exact h
  · exact absurd h hleft
  · exact absurd h hright

/-- One stream feeds two requests when one absorbs the other, and only then. The
requests are arbitrary, and which bytes are absorbed is said of their own stages, inputs
and configurations. -/
theorem separates_iff (args args' : DeriveArgs) :
    (args.stream = args'.stream → args = args') ↔
      ¬ args.Absorbs args' ∧ ¬ args'.Absorbs args := by
  constructor
  · intro hseparates
    exact ⟨fun h => h.ne (hseparates h.stream_eq),
      fun h => h.ne (hseparates h.stream_eq.symm).symm⟩
  · intro ⟨hleft, hright⟩
    exact eq_of_stream_eq hleft hright

/-- The stage is empty and the config holds both separators; the other stage holds
them instead. -/
theorem not_stream_injective :
    ¬ ∀ args args' : DeriveArgs, args.stream = args'.stream → args = args' := by
  intro hinjective
  have heq := hinjective
    ⟨"", [], ⟨stageSeparator ++ configSeparator, by decide +kernel⟩⟩
    ⟨"\x1fstage\x1f\x1fconfig\x1f", [], ⟨[], by decide⟩⟩ (by decide +kernel)
  have hstage := congrArg stage heq
  exact absurd hstage (by decide)

/-- Stages without the separator's outer byte and inputs not of its length keep
requests apart. -/
theorem eq_of_stream_eq_of_plain (hstage : 0x1f ∉ asBytes args.stage)
    (hstage' : 0x1f ∉ asBytes args'.stage)
    (hinputs : ∀ input ∈ args.inputs, input.bytes.length ≠ separatorLength)
    (hinputs' : ∀ input ∈ args'.inputs, input.bytes.length ≠ separatorLength)
    (heq : args.stream = args'.stream) : args = args' := by
  have hplain : ∀ {left right : DeriveArgs}, 0x1f ∉ asBytes right.stage →
      (∀ input ∈ right.inputs, input.bytes.length ≠ separatorLength) →
      ¬ left.Absorbs right := by
    rintro left right hright hlengths (habsorbs | habsorbs | hoverlaps)
    · obtain ⟨-, input, rest, hsplit, hlength, -⟩ := habsorbs
      exact hlengths input (by simp [hsplit]) hlength
    · obtain ⟨extra, hsplit, -⟩ := habsorbs
      have hbyte : (0x1f : UInt8) ∈ stageSeparator := by
        rw [stageSeparator_eq]
        decide
      exact hright (by simp [hsplit, hbyte])
    · have hbyte : (0x1f : UInt8) ∈ stageSeparator.dropLast := by
        rw [stageSeparator_eq]
        decide
      exact hright (by simp [hoverlaps.1, hbyte])
  exact eq_of_stream_eq (hplain hstage' hinputs') (hplain hstage hinputs) heq

end DeriveArgs

end HabitatGraph
