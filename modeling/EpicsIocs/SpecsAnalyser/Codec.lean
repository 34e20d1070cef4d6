import EpicsIocs.Lib.Text
import EpicsIocs.Lib.Transducer

/-!
# Replies of the SPECS analyser

`clean_string`, `NameValueParser` and `ResponseAssembler` of `codec.rs`, and the loop of
`command_response` of `wire.rs` that feeds them the chunks of a reply.  Strings are lists of
characters.

The parser takes one character at a time and its state carries over the end of a chunk, so the
chunks of a reply are read as the reply; but `begin` cleans the first chunk, and a separator that
ends it is lost.  Every pair of a reply comes back exactly where no separator ends the first of
several chunks or stands at an end of a bare value (`assembled_iff`).
-/

namespace SpecsAnalyser

open Text Transducer

/-! ## The code -/

abbrev Pair : Type := List Char × List Char

/-- `DEFAULT_CLEAN_CHARS`. -/
def isCleanChar (c : Char) : Bool := c = ':' || c = ' ' || c = '\n'

def cleanDefault (s : List Char) : List Char := strip isCleanChar s

structure NameValueParser where
  insideQuotes : Bool := false
  inArray : Bool := false
  parsingName : Bool := true
  name : List Char := []
  value : List Char := []
  lastChar : Option Char := none
  deriving DecidableEq, Repr

namespace NameValueParser

def takePair (p : NameValueParser) : Pair × NameValueParser :=
  ((cleanDefault p.name, cleanDefault p.value),
    { p with name := [], value := [], parsingName := true })

/-- A character of a value. -/
def feedValue (p : NameValueParser) (cc : Char) : NameValueParser × List Pair :=
  let p := { p with value := p.value ++ [cc] }
  if p.insideQuotes then
    (if p.lastChar ≠ some '\\' ∧ cc = '"' then { p with insideQuotes := false } else p, [])
  else if cc = '[' then ({ p with inArray := true }, [])
  else if cc = ']' then ({ p with inArray := false }, [])
  else if cc = '"' then ({ p with insideQuotes := true }, [])
  else if cc = ' ' ∧ p.inArray = false then (p.takePair.2, [p.takePair.1])
  else (p, [])

def feedChar (p : NameValueParser) (cc : Char) : NameValueParser × List Pair :=
  let (p, pairs) :=
    if p.parsingName then
      (if cc = ':' then { p with parsingName := false } else { p with name := p.name ++ [cc] }, [])
    else p.feedValue cc
  ({ p with lastChar := some cc }, pairs)

def needsMore (p : NameValueParser) : Bool := !p.parsingName && (p.inArray || p.insideQuotes)

/-- The pairs that this chunk completes, and whether there has to be another. -/
def feed (p : NameValueParser) (chunk : List Char) : NameValueParser × List Pair × Bool :=
  let (p, pairs) := run feedChar p chunk
  if !p.parsingName && !p.needsMore then (p.takePair.2, pairs ++ [p.takePair.1], false)
  else (p, pairs, p.needsMore)

end NameValueParser

structure ErrorInfo where
  code : List Char
  message : List Char
  deriving DecidableEq, Repr

/-- `s.get(n..)`, where `n` counts bytes. -/
def getFrom : Nat → List Char → Option (List Char)
  | 0, s => some s
  | _ + 1, [] => none
  | n + 1, c :: s => if c.utf8Size ≤ n + 1 then getFrom (n + 1 - c.utf8Size) s else none

def parseErrorResponse (payload : List Char) : ErrorInfo :=
  let rest := cleanDefault ((getFrom 5 payload).getD [])
  if ' ' ∈ rest then
    ⟨rest.takeWhile (· ≠ ' '), cleanDefault ((rest.dropWhile (· ≠ ' ')).drop 1)⟩
  else ⟨rest, []⟩

inductive BeginOutcome where
  | ok
  | needsMore
  | error (info : ErrorInfo)
  deriving DecidableEq, Repr

structure ResponseAssembler where
  parser : NameValueParser := {}
  pairs : List Pair := []
  deriving DecidableEq, Repr

namespace ResponseAssembler

def feed (a : ResponseAssembler) (chunk : List Char) : ResponseAssembler × Bool :=
  let (parser, pairs, needsMore) := a.parser.feed chunk
  (⟨parser, a.pairs ++ pairs⟩, needsMore)

/-- `begin`. -/
def start (a : ResponseAssembler) (payload : List Char) : ResponseAssembler × BeginOutcome :=
  match payload with
  | 'O' :: 'K' :: rest =>
    if cleanDefault rest = [] then (a, .ok)
    else ((a.feed (cleanDefault rest)).1,
      if (a.feed (cleanDefault rest)).2 then .needsMore else .ok)
  | payload => (a, .error (parseErrorResponse payload))

def continueWith (a : ResponseAssembler) (chunk : List Char) : ResponseAssembler × Bool :=
  a.feed chunk

/-- The map of the pairs; of two with one name, the later. -/
def finish (a : ResponseAssembler) (name : List Char) : Option (List Char) :=
  (a.pairs.reverse.find? (·.1 = name)).map (·.2)

end ResponseAssembler

/-- The reads of `command_response`: nothing if it asks for a chunk that is not there, or leaves
one. -/
def readChunks (a : ResponseAssembler) (needsMore : Bool) :
    List (List Char) → Option ResponseAssembler
  | [] => if needsMore then none else some a
  | chunk :: chunks =>
    if needsMore then readChunks (a.continueWith chunk).1 (a.continueWith chunk).2 chunks else none

def commandResponse (payload : List Char) (chunks : List (List Char)) : Option ResponseAssembler :=
  match ResponseAssembler.start {} payload with
  | (a, .ok) => readChunks a false chunks
  | (a, .needsMore) => readChunks a true chunks
  | (_, .error _) => none

/-! ## Replies -/

/-- Behind `prev`, what a quoted string holds up to its end: quotes are behind backslashes, and
the end is not. -/
def Quoted : Char → List Char → Prop
  | prev, [] => prev ≠ '\\'
  | prev, c :: body => (c = '"' → prev = '\\') ∧ Quoted c body

/-- A character of an array that is in no string, or a string. -/
inductive Piece where
  | char (c : Char) (h : c ≠ '[' ∧ c ≠ ']' ∧ c ≠ '"')
  | quoted (body : List Char) (h : Quoted '"' body)

def Piece.text : Piece → List Char
  | char c _ => [c]
  | quoted body _ => '"' :: (body ++ ['"'])

/-- A bare value has no spaces, brackets and quotes; an array is any pieces in brackets. -/
inductive Value where
  | bare (token : List Char) (hne : token ≠ [])
      (h : ∀ c ∈ token, c ≠ ' ' ∧ c ≠ '[' ∧ c ≠ ']' ∧ c ≠ '"')
  | quoted (body : List Char) (h : Quoted '"' body)
  | array (pieces : List Piece)

def Value.text : Value → List Char
  | bare token _ _ => token
  | quoted body _ => '"' :: (body ++ ['"'])
  | array pieces => '[' :: (pieces.flatMap Piece.text ++ [']'])

def Value.Delimited : Value → Prop
  | bare _ _ _ => False
  | quoted _ _ => True
  | array _ => True

structure Field where
  name : List Char
  value : Value
  name_ne : name ≠ []
  name_colon : ':' ∉ name
  name_solid : Solid isCleanChar name

namespace Field

def text (f : Field) : List Char := f.name ++ ':' :: f.value.text

def pair (f : Field) : Pair := (f.name, f.value.text)

end Field

/-- The payload of an OK reply. -/
def reply (fields : List Field) : List Char :=
  'O' :: 'K' :: fields.flatMap fun f => ' ' :: f.text

/-- The reply up to a point in a quoted or bracketed value. -/
def InValue (fields : List Field) (pre : List Char) : Prop :=
  ∃ (before after : List Field) (f : Field) (a b : List Char), fields = before ++ f :: after ∧
    f.value.Delimited ∧ a ≠ [] ∧ b ≠ [] ∧ f.value.text = a ++ b ∧
    pre = reply before ++ ' ' :: (f.name ++ ':' :: a)

/-- The reply in a first chunk and others, cut within quoted and bracketed values. -/
structure Cut (fields : List Field) (first : List Char) (rest : List (List Char)) : Prop where
  whole : reply fields = first ++ rest.flatten
  inside : ∀ k < rest.length, InValue fields (first ++ (rest.take k).flatten)

/-- As many chunks are asked for as there are, and the pairs are those of the reply. -/
def Assembled (fields : List Field) (first : List Char) (rest : List (List Char)) : Prop :=
  ∃ a, commandResponse first rest = some a ∧ a.pairs = fields.map Field.pair ∧
    ∀ name, a.finish name = ((fields.map Field.pair).reverse.find? (·.1 = name)).map (·.2)

/-! ## The parser on a field -/

namespace NameValueParser

/-- In a value. -/
def inValue (name value : List Char) (last : Char) (quotes array : Bool) : NameValueParser where
  insideQuotes := quotes
  inArray := array
  parsingName := false
  name := name
  value := value
  lastChar := some last

/-- In a name. -/
def inName (name : List Char) (last : Option Char) : NameValueParser where
  name := name
  lastChar := last

theorem feedChar_name {c : Char} (h : c ≠ ':') (name : List Char) (last : Option Char) :
    feedChar (inName name last) c = (inName (name ++ [c]) (some c), []) := by
  rw [feedChar, inName]
  dsimp only
  rw [if_pos rfl, if_neg h]
  rfl

theorem run_name {more : List Char} (h : ':' ∉ more) (name : List Char) (last : Option Char) :
    run feedChar (inName name last) (more ++ [':']) =
      (inValue (name ++ more) [] ':' false false, []) := by
  induction more generalizing name last with
  | nil => rw [List.append_nil]; rfl
  | cons c more ih =>
    obtain ⟨hc, hmore⟩ := not_or.1 (mt List.mem_cons.2 h)
    rw [List.cons_append, run_cons_of (feedChar_name (Ne.symm hc) name last), ih hmore,
      List.append_assoc, List.singleton_append]

variable {name value : List Char} {last : Char} {array : Bool}

theorem feedChar_quotes {c : Char} (h : c = '"' → last = '\\') :
    feedChar (inValue name value last true array) c =
      (inValue name (value ++ [c]) c true array, []) := by
  rw [feedChar, inValue]
  dsimp only
  rw [if_neg Bool.false_ne_true, feedValue]
  dsimp only
  rw [if_pos rfl, if_neg (fun hand => hand.1 (congrArg some (h hand.2)))]
  rfl

theorem feedChar_close (h : last ≠ '\\') :
    feedChar (inValue name value last true array) '"' =
      (inValue name (value ++ ['"']) '"' false array, []) := by
  rw [feedChar, inValue]
  dsimp only
  rw [if_neg Bool.false_ne_true, feedValue]
  dsimp only
  rw [if_pos rfl, if_pos ⟨fun hlast => h (Option.some.inj hlast), rfl⟩]
  rfl

theorem feedChar_open : feedChar (inValue name value last false array) '"' =
    (inValue name (value ++ ['"']) '"' true array, []) := rfl

theorem feedChar_bracket : feedChar (inValue name value last false array) '[' =
    (inValue name (value ++ ['[']) '[' false true, []) := rfl

theorem feedChar_unbracket : feedChar (inValue name value last false array) ']' =
    (inValue name (value ++ [']']) ']' false false, []) := rfl

/-- A character that means nothing where it is. -/
theorem feedChar_plain {c : Char} (h : c ≠ '[' ∧ c ≠ ']' ∧ c ≠ '"')
    (hspace : c = ' ' → array = true) :
    feedChar (inValue name value last false array) c =
      (inValue name (value ++ [c]) c false array, []) := by
  rw [feedChar, inValue]
  dsimp only
  rw [if_neg Bool.false_ne_true, feedValue]
  dsimp only
  rw [if_neg Bool.false_ne_true, if_neg h.1, if_neg h.2.1, if_neg h.2.2,
    if_neg (fun hand => Bool.false_ne_true (hand.2.symm.trans (hspace hand.1)))]
  rfl

theorem feedChar_space : feedChar (inValue name value last false false) ' ' =
    (inName [] (some ' '), [(cleanDefault name, cleanDefault (value ++ [' ']))]) := rfl

/-- The rest of a string and its end. -/
theorem run_quoted {prev : Char} {body : List Char} (h : Quoted prev body) (value : List Char) :
    run feedChar (inValue name value prev true array) (body ++ ['"']) =
      (inValue name (value ++ (body ++ ['"'])) '"' false array, []) := by
  induction body generalizing prev value with
  | nil => exact run_cons_of (feedChar_close h)
  | cons c body ih =>
    rw [List.cons_append, run_cons_of (feedChar_quotes h.1), ih h.2, List.append_assoc,
      List.singleton_append]

variable (name array)

/-- A part of a string that leaves its end out. -/
theorem run_quoted_part {prev : Char} {body a b : List Char} (h : Quoted prev body)
    (hab : body ++ ['"'] = a ++ b) (hb : b ≠ []) (value : List Char) :
    ∃ last, run feedChar (inValue name value prev true array) a =
      (inValue name (value ++ a) last true array, []) := by
  induction body generalizing prev value a with
  | nil =>
    cases a with
    | nil => exact ⟨prev, by rw [List.append_nil]; rfl⟩
    | cons c a =>
      rw [List.nil_append, List.cons_append, List.cons.injEq] at hab
      exact absurd (List.append_eq_nil_iff.1 hab.2.symm).2 hb
  | cons c body ih =>
    cases a with
    | nil => exact ⟨prev, by rw [List.append_nil]; rfl⟩
    | cons c' a =>
      rw [List.cons_append, List.cons_append, List.cons.injEq] at hab
      obtain ⟨rfl, hab⟩ := hab
      obtain ⟨last, hrun⟩ := ih h.2 hab (value ++ [c])
      exact ⟨last, by rw [run_cons_of (feedChar_quotes h.1), hrun, List.append_assoc,
        List.singleton_append]⟩

theorem run_piece (piece : Piece) (value : List Char) (last : Char) :
    ∃ last', run feedChar (inValue name value last false true) piece.text =
      (inValue name (value ++ piece.text) last' false true, []) := by
  cases piece with
  | char c h => exact ⟨c, run_cons_of (feedChar_plain h fun _ => rfl)⟩
  | quoted body h =>
    refine ⟨'"', ?_⟩
    rw [Piece.text, run_cons_of feedChar_open, run_quoted h, List.append_assoc,
      List.singleton_append]

theorem run_pieces (pieces : List Piece) (value : List Char) (last : Char) :
    ∃ last', run feedChar (inValue name value last false true) (pieces.flatMap Piece.text) =
      (inValue name (value ++ pieces.flatMap Piece.text) last' false true, []) := by
  induction pieces generalizing value last with
  | nil => exact ⟨last, by rw [List.flatMap_nil, List.append_nil]; rfl⟩
  | cons piece pieces ih =>
    obtain ⟨last', hpiece⟩ := run_piece name piece value last
    obtain ⟨last'', hrest⟩ := ih (value ++ piece.text) last'
    exact ⟨last'', by rw [List.flatMap_cons, run_append_of hpiece hrest, List.append_assoc]; rfl⟩

/-- Any part of a piece is read within the array. -/
theorem run_piece_part {piece : Piece} {a b : List Char} (hab : piece.text = a ++ b)
    (value : List Char) (last : Char) :
    ∃ last' quotes, run feedChar (inValue name value last false true) a =
      (inValue name (value ++ a) last' quotes true, []) := by
  by_cases hb : b = []
  · obtain ⟨last', hrun⟩ := run_piece name piece value last
    rw [hab, hb, List.append_nil] at hrun
    exact ⟨last', false, hrun⟩
  cases a with
  | nil => exact ⟨last, false, by rw [List.append_nil]; rfl⟩
  | cons c a =>
    cases piece with
    | char c' h =>
      rw [Piece.text, List.cons_append, List.cons.injEq] at hab
      exact absurd (List.append_eq_nil_iff.1 hab.2.symm).2 hb
    | quoted body h =>
      rw [Piece.text, List.cons_append, List.cons.injEq] at hab
      obtain ⟨rfl, hab⟩ := hab
      obtain ⟨last', hrun⟩ := run_quoted_part name true h hab hb (value ++ ['"'])
      exact ⟨last', true, by
        rw [run_cons_of feedChar_open, hrun, List.append_assoc, List.singleton_append]⟩

/-- A part of an array that leaves its end out. -/
theorem run_pieces_part {pieces : List Piece} {a b : List Char}
    (hab : pieces.flatMap Piece.text ++ [']'] = a ++ b) (hb : b ≠ []) (value : List Char)
    (last : Char) : ∃ last' quotes, run feedChar (inValue name value last false true) a =
      (inValue name (value ++ a) last' quotes true, []) := by
  induction pieces generalizing value last a with
  | nil =>
    cases a with
    | nil => exact ⟨last, false, by rw [List.append_nil]; rfl⟩
    | cons c a =>
      rw [List.flatMap_nil, List.nil_append, List.cons_append, List.cons.injEq] at hab
      exact absurd (List.append_eq_nil_iff.1 hab.2.symm).2 hb
  | cons piece pieces ih =>
    rw [List.flatMap_cons, List.append_assoc] at hab
    obtain ⟨last', hpiece⟩ := run_piece name piece value last
    rcases List.append_eq_append_iff.1 hab with ⟨a', rfl, hrest⟩ | ⟨b', htext, hrest⟩
    · obtain ⟨last'', quotes, hrun⟩ := ih hrest (value ++ piece.text) last'
      exact ⟨last'', quotes, by rw [run_append_of hpiece hrun, List.append_assoc]; rfl⟩
    · exact run_piece_part name htext value last

theorem run_value (v : Value) :
    ∃ last, run feedChar (inValue name [] ':' false false) v.text =
      (inValue name v.text last false false, []) := by
  cases v with
  | bare token hne h =>
    have hplain : ∀ (value : List Char) (last : Char), (∀ c ∈ token, c ≠ ' ' ∧ c ≠ '[' ∧ c ≠ ']' ∧
        c ≠ '"') → ∃ last', run feedChar (inValue name value last false false) token =
          (inValue name (value ++ token) last' false false, []) := by
      clear hne h
      induction token with
      | nil => exact fun value last _ => ⟨last, by rw [List.append_nil]; rfl⟩
      | cons c token ih =>
        intro value last h
        obtain ⟨hc, htoken⟩ := List.forall_mem_cons.1 h
        obtain ⟨last', hrun⟩ := ih (value ++ [c]) c htoken
        refine ⟨last', ?_⟩
        rw [run_cons_of (feedChar_plain hc.2 fun hspace => absurd hspace hc.1), hrun,
          List.append_assoc, List.singleton_append]
    exact hplain [] ':' h
  | quoted body h =>
    refine ⟨'"', ?_⟩
    rw [Value.text, run_cons_of feedChar_open, run_quoted h]
    rfl
  | array pieces =>
    obtain ⟨last, hpieces⟩ := run_pieces name pieces ['['] '['
    refine ⟨']', ?_⟩
    rw [Value.text, run_cons_of feedChar_bracket, List.nil_append,
      run_append_of hpieces (run_cons_of feedChar_unbracket), run_nil, List.append_assoc]
    rfl

/-- Within a quoted or bracketed value there has to be more. -/
theorem run_value_part {v : Value} (hv : v.Delimited) {a b : List Char} (hab : v.text = a ++ b)
    (ha : a ≠ []) (hb : b ≠ []) :
    ∃ p, run feedChar (inValue name [] ':' false false) a = (p, []) ∧ p.needsMore = true := by
  obtain ⟨c, a, rfl⟩ := List.exists_cons_of_ne_nil ha
  cases v with
  | bare token hne h => exact hv.elim
  | quoted body h =>
    rw [Value.text, List.cons_append, List.cons.injEq] at hab
    obtain ⟨rfl, hab⟩ := hab
    obtain ⟨last, hrun⟩ := run_quoted_part name false h hab hb ['"']
    exact ⟨_, (run_cons_of feedChar_open).trans hrun, rfl⟩
  | array pieces =>
    rw [Value.text, List.cons_append, List.cons.injEq] at hab
    obtain ⟨rfl, hab⟩ := hab
    obtain ⟨last, quotes, hrun⟩ := run_pieces_part name hab hb ['['] '['
    exact ⟨_, (run_cons_of feedChar_bracket).trans hrun, rfl⟩

/-- A field, up to its end. -/
theorem run_field (f : Field) (last : Option Char) :
    ∃ last', run feedChar (inName [] last) f.text =
      (inValue f.name f.value.text last' false false, []) := by
  obtain ⟨last', hvalue⟩ := run_value f.name f.value
  refine ⟨last', ?_⟩
  rw [Field.text, List.append_cons, run_append_of (run_name f.name_colon [] last) hvalue]
  rfl

/-- The pair that comes of a field. -/
def read (f : Field) : Pair := (cleanDefault f.name, cleanDefault f.value.text)

theorem cleanDefault_space (s : List Char) : cleanDefault (s ++ [' ']) = cleanDefault s :=
  strip_concat rfl s

/-- Behind a field, the others. -/
theorem run_fields (f : Field) (fields : List Field) (last : Char) :
    ∃ last' g, (f :: fields).getLast? = some g ∧
      run feedChar (inValue f.name f.value.text last false false)
        (fields.flatMap fun f => ' ' :: f.text) =
      (inValue g.name g.value.text last' false false, (f :: fields).dropLast.map read) := by
  induction fields generalizing f last with
  | nil => exact ⟨last, f, rfl, rfl⟩
  | cons f' fields ih =>
    obtain ⟨last', hfield⟩ := run_field f' (some ' ')
    obtain ⟨last'', g, hg, hrest⟩ := ih f' last'
    refine ⟨last'', g, hg, ?_⟩
    rw [List.flatMap_cons, List.cons_append, run_cons, feedChar_space]
    dsimp only
    rw [run_append_of hfield hrest, cleanDefault_space]
    rfl

/-- A part of a reply that ends in a quoted or bracketed value. -/
theorem run_part {before : List Field} {f : Field} {a b t : List Char} (hv : f.value.Delimited)
    (hab : f.value.text = a ++ b) (ha : a ≠ []) (hb : b ≠ [])
    (ht : ' ' :: t = (before.flatMap fun f => ' ' :: f.text) ++ ' ' :: (f.name ++ ':' :: a)) :
    (run feedChar (inName [] none) t).1.needsMore = true := by
  obtain ⟨p, hpart, hmore⟩ := run_value_part f.name hv hab ha hb
  have hfield : ∀ last, run feedChar (inName [] last) (f.name ++ ':' :: a) = (p, []) := by
    intro last
    rw [List.append_cons, run_append_of (run_name f.name_colon [] last) hpart]
    rfl
  cases before with
  | nil =>
    rw [List.flatMap_nil, List.nil_append, List.cons.injEq] at ht
    rw [ht.2, hfield, hmore]
  | cons h before =>
    rw [List.flatMap_cons, List.cons_append, List.cons_append, List.cons.injEq] at ht
    obtain ⟨last', hh⟩ := run_field h none
    obtain ⟨last'', g, _, hrest⟩ := run_fields h before last'
    rw [ht.2, run_append, run_append_of hh hrest, run_cons, feedChar_space]
    dsimp only
    rw [hfield, hmore]

/-- The whole of a reply. -/
theorem run_body (f : Field) (fields : List Field) :
    ∃ last g, (f :: fields).getLast? = some g ∧
      run feedChar (inName [] none) (f.text ++ fields.flatMap fun f => ' ' :: f.text) =
        (inValue g.name g.value.text last false false, (f :: fields).dropLast.map read) := by
  obtain ⟨last, hfield⟩ := run_field f none
  obtain ⟨last', g, hg, hrest⟩ := run_fields f fields last
  exact ⟨last', g, hg, by rw [run_append_of hfield hrest]; rfl⟩

/-! ## What a chunk adds -/

/-- The characters of the pair under way. -/
def weight (p : NameValueParser) : Nat :=
  p.name.length + p.value.length + if p.parsingName then 0 else 1

/-- The characters of a pair, its colon and a space. -/
def cost (pair : Pair) : Nat := pair.1.length + pair.2.length + 2

theorem cost_takePair (p : NameValueParser) :
    cost p.takePair.1 ≤ p.name.length + p.value.length + 2 := by
  have hname := length_strip_le (p := isCleanChar) p.name
  have hvalue := length_strip_le (p := isCleanChar) p.value
  rw [takePair, cost]
  dsimp only
  rw [cleanDefault, cleanDefault]
  omega

theorem feedChar_weight (p : NameValueParser) (c : Char) :
    ((feedChar p c).2.map cost).sum + weight (feedChar p c).1 ≤ weight p + 1 := by
  obtain ⟨quotes, array, parsing, name, value, last⟩ := p
  cases parsing with
  | true =>
    rw [feedChar]
    dsimp only
    rw [if_pos rfl]
    by_cases hc : c = ':'
    · rw [if_pos hc]
      exact Nat.le_of_eq (Nat.zero_add _)
    · rw [if_neg hc]
      simp only [weight, List.length_append, List.length_singleton, List.map_nil, List.sum_nil,
        if_true]
      omega
  | false =>
    have hspace := cost_takePair ⟨quotes, array, false, name, value ++ [c], last⟩
    have hclean : cost (takePair ⟨quotes, array, false, name, value ++ [' '], last⟩).1 ≤
        name.length + value.length + 2 := by
      have hname := length_strip_le (p := isCleanChar) name
      have hvalue := length_strip_le (p := isCleanChar) value
      rw [takePair, cost]
      dsimp only
      rw [cleanDefault_space, cleanDefault, cleanDefault]
      omega
    rw [feedChar]
    dsimp only
    rw [if_neg Bool.false_ne_true, feedValue]
    dsimp only
    split_ifs with _ _ _ _ _ hc
    · simp [weight]; omega
    · simp [weight]; omega
    · simp [weight]; omega
    · simp [weight]; omega
    · simp [weight]; omega
    · obtain ⟨rfl, _⟩ := hc
      simp only [weight, takePair, List.map_cons, List.map_nil, List.sum_cons, List.sum_nil,
        List.length_nil, Bool.false_eq_true, if_false, if_true] at hclean ⊢
      omega
    · simp [weight]; omega

/-- What is given out is clean. -/
theorem feedChar_solid (p : NameValueParser) (c : Char) :
    ∀ pair ∈ (feedChar p c).2, Solid isCleanChar pair.2 := by
  rw [feedChar, feedValue]
  dsimp only
  split_ifs
  any_goals exact fun pair h => absurd h List.not_mem_nil
  intro pair hpair
  rw [List.mem_singleton.1 hpair]
  exact solid_strip _

theorem feed_spec (p : NameValueParser) (chunk : List Char) :
    (∀ pair ∈ (p.feed chunk).2.1, Solid isCleanChar pair.2) ∧
      ((p.feed chunk).2.2 = true →
        ((p.feed chunk).2.1.map cost).sum + weight (p.feed chunk).1 ≤ weight p + chunk.length) ∧
      ((p.feed chunk).2.1.map cost).sum ≤ weight p + chunk.length + 1 := by
  have hsolid := forall_run feedChar_solid p chunk
  have hweight := weight_run feedChar_weight p chunk
  have hlast := cost_takePair (run feedChar p chunk).1
  by_cases hend : (!(run feedChar p chunk).1.parsingName &&
      !(run feedChar p chunk).1.needsMore) = true
  · have hparsing : (run feedChar p chunk).1.parsingName = false := by
      rw [Bool.and_eq_true, Bool.not_eq_true'] at hend
      exact hend.1
    have hfeed : p.feed chunk = ((run feedChar p chunk).1.takePair.2,
        (run feedChar p chunk).2 ++ [(run feedChar p chunk).1.takePair.1], false) := if_pos hend
    rw [hfeed]
    refine ⟨fun pair hpair => ?_, nofun, ?_⟩
    · rcases List.mem_append.1 hpair with hrun | htake
      · exact hsolid pair hrun
      · rw [List.mem_singleton.1 htake]
        exact solid_strip _
    · rw [weight, hparsing, if_neg Bool.false_ne_true] at hweight
      dsimp only
      rw [List.map_append, List.sum_append, List.map_singleton, List.sum_singleton]
      omega
  · have hfeed : p.feed chunk = ((run feedChar p chunk).1, (run feedChar p chunk).2,
        (run feedChar p chunk).1.needsMore) := if_neg hend
    rw [hfeed]
    exact ⟨hsolid, fun _ => hweight, by dsimp only; omega⟩

end NameValueParser

/-! ## Whole replies -/

open NameValueParser

/-- Chunks after which there has to be more, but for the last. -/
theorem readChunks_run {p : NameValueParser} {acc : List Pair} {chunks : List (List Char)}
    (hne : chunks ≠ [])
    (hmore : ∀ k, 0 < k → k < chunks.length →
      (run feedChar p (chunks.take k).flatten).1.needsMore = true)
    (hparsing : (run feedChar p chunks.flatten).1.parsingName = false)
    (hdone : (run feedChar p chunks.flatten).1.needsMore = false) :
    readChunks ⟨p, acc⟩ true chunks = some ⟨(run feedChar p chunks.flatten).1.takePair.2,
      acc ++ ((run feedChar p chunks.flatten).2 ++
        [(run feedChar p chunks.flatten).1.takePair.1])⟩ := by
  induction chunks generalizing p acc with
  | nil => exact absurd rfl hne
  | cons chunk chunks ih =>
    rw [readChunks, if_pos rfl, ResponseAssembler.continueWith, ResponseAssembler.feed]
    dsimp only
    by_cases hlast : chunks = []
    · subst hlast
      rw [List.flatten_cons, List.flatten_nil, List.append_nil] at hparsing hdone ⊢
      have hfeed : p.feed chunk = ((run feedChar p chunk).1.takePair.2,
          (run feedChar p chunk).2 ++ [(run feedChar p chunk).1.takePair.1], false) :=
        if_pos (by rw [hparsing, hdone]; rfl)
      rw [hfeed]
      rfl
    · have hpos := List.length_pos_iff.2 hlast
      have hfirst := hmore 1 Nat.one_pos (by rw [List.length_cons]; omega)
      rw [List.take_succ_cons, List.take_zero, List.flatten_cons, List.flatten_nil,
        List.append_nil] at hfirst
      have hfeed : p.feed chunk = ((run feedChar p chunk).1, (run feedChar p chunk).2, true) := by
        rw [NameValueParser.feed]
        dsimp only
        rw [hfirst, Bool.not_true, Bool.and_false, if_neg Bool.false_ne_true]
      rw [List.flatten_cons, run_append] at hparsing hdone ⊢
      rw [hfeed]
      dsimp only at hparsing hdone ⊢
      rw [ih hlast (fun k hk hlt => ?_) hparsing hdone, List.append_assoc, List.append_assoc]
      have := hmore (k + 1) (Nat.succ_pos k) (by rw [List.length_cons]; omega)
      rwa [List.take_succ_cons, List.flatten_cons, run_append] at this

/-- What the reads of some chunks can give. -/
theorem readChunks_spec {a a' : ResponseAssembler} {more : Bool} {chunks : List (List Char)}
    (h : readChunks a more chunks = some a') :
    ∃ new, a'.pairs = a.pairs ++ new ∧ (∀ pair ∈ new, Solid isCleanChar pair.2) ∧
      (new.map cost).sum ≤ weight a.parser + chunks.flatten.length + 1 ∧
      (more = false → new = []) := by
  induction chunks generalizing a more with
  | nil =>
    cases more with
    | true => cases h
    | false =>
      cases h
      exact ⟨[], (List.append_nil _).symm, nofun, Nat.zero_le _, fun _ => rfl⟩
  | cons chunk chunks ih =>
    cases more with
    | false => cases h
    | true =>
      rw [readChunks, if_pos rfl] at h
      obtain ⟨new, hpairs, hsolid, hcost, hstop⟩ := ih h
      obtain ⟨hfeed, hopen, hend⟩ := feed_spec a.parser chunk
      refine ⟨(a.parser.feed chunk).2.1 ++ new, ?_, ?_, ?_, nofun⟩
      · rw [hpairs, ← List.append_assoc]
        rfl
      · intro pair hpair
        rcases List.mem_append.1 hpair with hnow | hlater
        · exact hfeed pair hnow
        · exact hsolid pair hlater
      · rw [List.map_append, List.sum_append, List.flatten_cons, List.length_append]
        by_cases hmore : (a.parser.feed chunk).2.2 = true
        · have hcost' : (new.map cost).sum ≤
              weight (a.parser.feed chunk).1 + chunks.flatten.length + 1 := hcost
          have := hopen hmore
          omega
        · rw [hstop (Bool.eq_false_iff.2 hmore), List.map_nil, List.sum_nil]
          omega

theorem commandResponse_ok (payload : List Char) (chunks : List (List Char)) :
    commandResponse ('O' :: 'K' :: payload) chunks =
      if cleanDefault payload = [] then readChunks {} false chunks
      else readChunks {} true (cleanDefault payload :: chunks) := by
  rw [commandResponse, ResponseAssembler.start]
  by_cases hnil : cleanDefault payload = []
  · rw [if_pos hnil, if_pos hnil]
  · rw [if_neg hnil, if_neg hnil, readChunks, if_pos rfl, ResponseAssembler.continueWith]
    cases (ResponseAssembler.feed {} (cleanDefault payload)).2 with
    | true => rfl
    | false => rfl

/-- The reply behind its first space. -/
def body (f : Field) (fields : List Field) : List Char :=
  f.text ++ fields.flatMap fun f => ' ' :: f.text

theorem reply_cons (f : Field) (fields : List Field) :
    reply (f :: fields) = 'O' :: 'K' :: ' ' :: body f fields := rfl

theorem Cut.exists_body {f : Field} {fields : List Field} {first : List Char}
    {rest : List (List Char)} (h : Cut (f :: fields) first rest) :
    ∃ s, first = 'O' :: 'K' :: ' ' :: s ∧ s ≠ [] ∧ body f fields = s ++ rest.flatten := by
  have hwhole := h.whole
  rw [reply_cons] at hwhole
  cases rest with
  | nil =>
    rw [List.flatten_nil, List.append_nil] at hwhole
    refine ⟨body f fields, hwhole.symm, ?_, (List.append_nil _).symm⟩
    exact fun hnil => f.name_ne (List.append_eq_nil_iff.1 (List.append_eq_nil_iff.1 hnil).1).1
  | cons chunk rest =>
    obtain ⟨before, after, g, a, b, -, -, -, -, -, hpre⟩ := h.inside 0 (Nat.succ_pos _)
    rw [List.take_zero, List.flatten_nil, List.append_nil] at hpre
    have hshape : ∃ s, first = 'O' :: 'K' :: ' ' :: s ∧ s ≠ [] := by
      cases before with
      | nil => exact ⟨_, hpre, by simp⟩
      | cons f' before => exact ⟨_, hpre, by simp⟩
    obtain ⟨s, rfl, hs⟩ := hshape
    refine ⟨s, rfl, hs, ?_⟩
    simpa using hwhole

/-- In an array or string the ends are its brackets or quotes. -/
theorem Value.solid_of_delimited {v : Value} (h : v.Delimited) : Solid isCleanChar v.text := by
  cases v with
  | bare token hne hchars => exact h.elim
  | quoted body hbody => exact solid_between rfl rfl body
  | array pieces => exact solid_between rfl rfl (pieces.flatMap Piece.text)

theorem sum_cost (fields : List Field) :
    ((fields.map Field.pair).map cost).sum = (fields.flatMap fun f => ' ' :: f.text).length := by
  induction fields with
  | nil => rfl
  | cons f fields ih =>
    rw [List.map_cons, List.map_cons, List.sum_cons, ih, List.flatMap_cons, List.length_append]
    simp only [cost, Field.pair, Field.text, List.length_cons, List.length_append]
    omega

theorem Value.text_ne_nil (v : Value) : v.text ≠ [] := by
  cases v with
  | bare token hne hchars => exact hne
  | quoted body hbody => exact List.cons_ne_nil _ _
  | array pieces => exact List.cons_ne_nil _ _

/-- The last character of a body is that of its last value. -/
theorem exists_getLast?_body (f : Field) (fields : List Field) :
    ∃ g ∈ f :: fields, (body f fields).getLast? = g.value.text.getLast? := by
  induction fields generalizing f with
  | nil =>
    refine ⟨f, List.mem_cons_self, ?_⟩
    rw [body, List.flatMap_nil, List.append_nil, Field.text, List.append_cons,
      List.getLast?_append_of_ne_nil _ f.value.text_ne_nil]
  | cons f' fields ih =>
    obtain ⟨g, hg, hlast⟩ := ih f'
    refine ⟨g, List.mem_cons_of_mem f hg, ?_⟩
    rw [← hlast, body, List.flatMap_cons, List.cons_append, List.append_cons]
    refine List.getLast?_append_of_ne_nil _ ?_
    exact fun hnil => f'.name_ne (List.append_eq_nil_iff.1 (List.append_eq_nil_iff.1 hnil).1).1

theorem head?_body (f : Field) (fields : List Field) :
    (body f fields).head? = f.name.head? := by
  obtain ⟨c, name, hname⟩ := List.exists_cons_of_ne_nil f.name_ne
  rw [body, Field.text, hname]
  rfl

/-- Everything but the last pair, and the last. -/
theorem dropLast_read {fields : List Field} {g : Field} (hg : fields.getLast? = some g)
    (hsolid : ∀ f ∈ fields, Solid isCleanChar f.value.text) :
    fields.dropLast.map read ++ [read g] = fields.map Field.pair := by
  have hread : ∀ f ∈ fields, read f = f.pair := by
    intro f hf
    exact Prod.ext f.name_solid.strip_eq (hsolid f hf).strip_eq
  rw [← List.map_singleton, ← List.map_append, List.dropLast_append_getLast? g hg]
  exact List.map_congr_left hread

/-- Every pair comes back where the ends that are cleaned hold no separators. -/
theorem assembled_of_solid {f : Field} {fields : List Field} {s : List Char}
    {rest : List (List Char)} (h : Cut (f :: fields) ('O' :: 'K' :: ' ' :: s) rest)
    (hs : s ≠ []) (hbody : body f fields = s ++ rest.flatten) (hsolid : Solid isCleanChar s)
    (hvalues : ∀ g ∈ f :: fields, Solid isCleanChar g.value.text) :
    Assembled (f :: fields) ('O' :: 'K' :: ' ' :: s) rest := by
  have hclean : cleanDefault (' ' :: s) = s := (strip_cons rfl s).trans hsolid.strip_eq
  obtain ⟨last, g, hg, hrun⟩ := run_body f fields
  rw [← body, hbody] at hrun
  have hread : readChunks ⟨inName [] none, []⟩ true (s :: rest) = some
      ⟨(run feedChar (inName [] none) (s :: rest).flatten).1.takePair.2, [] ++
        ((run feedChar (inName [] none) (s :: rest).flatten).2 ++
          [(run feedChar (inName [] none) (s :: rest).flatten).1.takePair.1])⟩ := by
    refine readChunks_run (List.cons_ne_nil _ _) (fun k hk hlt => ?_)
      (by rw [List.flatten_cons, hrun]; rfl) (by rw [List.flatten_cons, hrun]; rfl)
    obtain ⟨j, rfl⟩ := Nat.exists_eq_succ_of_ne_zero hk.ne'
    rw [List.take_succ_cons, List.flatten_cons]
    obtain ⟨before, after, g, a, b, -, hv, ha, hb, hab, hpre⟩ :=
      h.inside j (Nat.lt_of_succ_lt_succ hlt)
    have ht : ' ' :: (s ++ (rest.take j).flatten) =
        (before.flatMap fun f => ' ' :: f.text) ++ ' ' :: (g.name ++ ':' :: a) :=
      (List.cons.inj (List.cons.inj hpre).2).2
    exact run_part hv hab ha hb ht
  rw [List.flatten_cons, hrun, List.nil_append] at hread
  have hresponse : commandResponse ('O' :: 'K' :: ' ' :: s) rest =
      some ⟨(inValue g.name g.value.text last false false).takePair.2,
        (f :: fields).map Field.pair⟩ := by
    rw [commandResponse_ok, hclean, if_neg hs, ← dropLast_read hg hvalues]
    exact hread
  exact ⟨_, hresponse, rfl, fun name => rfl⟩

/-- A first chunk that loses its last character has too few for the pairs. -/
theorem solid_of_assembled {f : Field} {fields : List Field} {s : List Char}
    {rest : List (List Char)} (hs : s ≠ []) (hbody : body f fields = s ++ rest.flatten)
    (h : Assembled (f :: fields) ('O' :: 'K' :: ' ' :: s) rest) :
    (∀ c, s.getLast? = some c → isCleanChar c = false) ∧
      ∀ g ∈ f :: fields, Solid isCleanChar g.value.text := by
  obtain ⟨a, hresponse, hpairs, -⟩ := h
  rw [commandResponse_ok] at hresponse
  by_cases hnil : cleanDefault (' ' :: s) = []
  · rw [if_pos hnil] at hresponse
    obtain ⟨new, hnew, -, -, hstop⟩ := readChunks_spec hresponse
    rw [hstop rfl, hpairs] at hnew
    cases hnew
  rw [if_neg hnil] at hresponse
  obtain ⟨new, hnew, hsolid, hcost, -⟩ := readChunks_spec hresponse
  have hnew : (f :: fields).map Field.pair = new := hpairs.symm.trans hnew
  rw [← hnew] at hsolid hcost
  constructor
  · intro c hc
    by_contra hclean
    rw [Bool.not_eq_false] at hclean
    obtain ⟨s', rfl⟩ : ∃ s', s = s' ++ [c] := ⟨_, (List.dropLast_append_getLast? c hc).symm⟩
    have hshort : (cleanDefault (' ' :: (s' ++ [c]))).length + 2 ≤ (' ' :: (s' ++ [c])).length :=
      length_strip_add_two rfl hclean s'
    have hlength : ((f :: fields).flatMap fun f => ' ' :: f.text).length =
        (' ' :: (s' ++ [c] ++ rest.flatten)).length := congrArg (fun l => (' ' :: l).length) hbody
    have hweight : weight (ResponseAssembler.parser {}) = 0 := rfl
    rw [sum_cost, hlength, hweight, List.flatten_cons, List.length_append] at hcost
    simp only [List.length_cons, List.length_append] at hcost hshort
    omega
  · intro g hg
    exact hsolid g.pair (List.mem_map_of_mem hg)

/-- A reply, cut within quoted and bracketed values, comes back pair for pair exactly if its first
chunk, unless it is the only one, ends in no separator, and no bare value has one at an end. -/
theorem assembled_iff {fields : List Field} {first : List Char} {rest : List (List Char)}
    (h : Cut fields first rest) :
    Assembled fields first rest ↔
      (rest = [] ∨ ∀ c, first.getLast? = some c → isCleanChar c = false) ∧
        ∀ f ∈ fields, ∀ token hne hchars, f.value = .bare token hne hchars →
          Solid isCleanChar token := by
  have hvalues : (∀ f ∈ fields, Solid isCleanChar f.value.text) ↔
      ∀ f ∈ fields, ∀ token hne hchars, f.value = .bare token hne hchars →
        Solid isCleanChar token := by
    refine forall₂_congr fun f hf => ?_
    cases f.value with
    | bare token hne hchars =>
      refine ⟨fun hsolid _ _ _ heq => ?_, fun hsolid => hsolid token hne hchars rfl⟩
      cases heq
      exact hsolid
    | quoted body hbody =>
      exact ⟨fun _ _ _ _ heq => (nomatch heq), fun _ => Value.solid_of_delimited trivial⟩
    | array pieces =>
      exact ⟨fun _ _ _ _ heq => (nomatch heq), fun _ => Value.solid_of_delimited trivial⟩
  rw [← hvalues]
  cases fields with
  | nil =>
    have hrest : rest = [] := by
      cases rest with
      | nil => rfl
      | cons chunk rest =>
        obtain ⟨before, after, f, a, b, hfields, -⟩ := h.inside 0 (Nat.succ_pos _)
        exact absurd hfields (by simp)
    subst hrest
    have hwhole : ['O', 'K'] = first ++ [] := h.whole
    rw [List.append_nil] at hwhole
    subst hwhole
    exact ⟨fun _ => ⟨.inl rfl, nofun⟩, fun _ => ⟨{}, rfl, rfl, fun _ => rfl⟩⟩
  | cons f fields =>
    obtain ⟨s, rfl, hs, hbody⟩ := h.exists_body
    have hlast : ('O' :: 'K' :: ' ' :: s).getLast? = s.getLast? :=
      List.getLast?_append_of_ne_nil ['O', 'K', ' '] hs
    rw [hlast]
    constructor
    · intro hassembled
      obtain ⟨hend, hvalues⟩ := solid_of_assembled hs hbody hassembled
      exact ⟨.inr hend, hvalues⟩
    · rintro ⟨hend, hvalues⟩
      refine assembled_of_solid h hs hbody ⟨?_, ?_⟩ hvalues
      · intro c hc
        refine f.name_solid.head c ?_
        rw [← head?_body f fields, hbody, List.head?_append, hc]
        rfl
      · rcases hend with rfl | hend
        · rw [List.flatten_nil, List.append_nil] at hbody
          intro c hc
          obtain ⟨g, hg, hgetLast⟩ := exists_getLast?_body f fields
          refine (hvalues g hg).last c ?_
          rw [← hgetLast, hbody, hc]
        · exact hend

/-- `A:"x y"`. -/
def spaceField : Field where
  name := ['A']
  value := .quoted ['x', ' ', 'y'] ⟨nofun, nofun, nofun, (by decide : 'y' ≠ '\\')⟩
  name_ne := by decide
  name_colon := by decide
  name_solid := ⟨by rintro _ ⟨⟩; rfl, by rintro _ ⟨⟩; rfl⟩

/-- Cut before the space, or behind it. -/
theorem spaceField_cut (a b : List Char) (ha : a ≠ []) (hb : b ≠ [])
    (h : '"' :: 'x' :: ' ' :: 'y' :: ['"'] = a ++ b) :
    Cut [spaceField] ('O' :: 'K' :: ' ' :: 'A' :: ':' :: a) [b] := by
  refine ⟨?_, ?_⟩
  · have hflat : [b].flatten = b := List.append_nil b
    rw [hflat]
    exact congrArg (fun s => 'O' :: 'K' :: ' ' :: 'A' :: ':' :: s) h
  · intro k hk
    obtain rfl : k = 0 := Nat.lt_one_iff.1 hk
    exact ⟨[], [], spaceField, a, b, rfl, trivial, ha, hb, h, List.append_nil _⟩

theorem assembled_before_space :
    Assembled [spaceField] ['O', 'K', ' ', 'A', ':', '"', 'x'] [[' ', 'y', '"']] := by
  refine (assembled_iff (spaceField_cut ['"', 'x'] _ (by decide) (by decide) rfl)).2 ⟨.inr ?_, ?_⟩
  · rintro _ ⟨⟩
    rfl
  · intro f hf token hne hchars hvalue
    rw [List.mem_singleton.1 hf] at hvalue
    cases hvalue

/-- The space that ends the first chunk is lost. -/
theorem not_assembled_behind_space :
    Cut [spaceField] ['O', 'K', ' ', 'A', ':', '"', 'x', ' '] [['y', '"']] ∧
      ¬ Assembled [spaceField] ['O', 'K', ' ', 'A', ':', '"', 'x', ' '] [['y', '"']] := by
  refine ⟨spaceField_cut ['"', 'x', ' '] _ (by decide) (by decide) rfl, ?_⟩
  rintro ⟨a, hresponse, hpairs, -⟩
  have hread : (commandResponse ['O', 'K', ' ', 'A', ':', '"', 'x', ' ']
      [['y', '"']]).map (·.pairs) = some [(['A'], ['"', 'x', 'y', '"'])] := by decide
  rw [hresponse, Option.map_some, hpairs] at hread
  exact absurd hread (by decide)

end SpecsAnalyser
