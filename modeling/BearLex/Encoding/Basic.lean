import BearLex.Encoding.Utf8
import BearLex.Encoding.Utf16
import BearLex.Encoding.SingleByte

/-! The encodings of script files, their names, and what can go wrong with a name or with the bytes
of a file. Names of other encodings may stand for further codecs, which are given from outside. -/

namespace BearLex

/-- An encoding of script files. -/
inductive Encoding
  | utf8
  | utf8Marked
  | utf16Marked
  | utf16 (order : ByteOrder)
  | latin1
  | ascii
  deriving DecidableEq

/-- Why the bytes of a file are not read: a part of them is no text, their byte order is not told,
or whatever else a further codec objects to. -/
inductive UnreadableBytes
  | fault (f : DecodeFault)
  | noMark
  | refused (message : Text)
  deriving DecidableEq

/-- Why a name names no encoding. -/
inductive NameFault
  | unknown (name : Text)
  | notText (name : Text)
  deriving DecidableEq

namespace NameFault

def message : NameFault → Text
  | unknown name => "unknown encoding: ".toList ++ name
  | notText name =>
    "'".toList ++ name
      ++ "' is not a text encoding; use codecs.open() to handle arbitrary codecs".toList

end NameFault

namespace Encoding

def decode (e : Encoding) (bytes : Bytes) : Except UnreadableBytes Text :=
  match e with
  | utf8 => (Utf8.decode bytes).mapError .fault
  | utf8Marked => (Utf8.decodeMarked bytes).mapError .fault
  | utf16 order => (Utf16.decode order bytes).mapError .fault
  | latin1 => .ok (Latin1.decode bytes)
  | ascii => (Ascii.decode bytes).mapError .fault
  | utf16Marked =>
    match Utf16.markedOrder? bytes with
    | some order => (Utf16.decodeAfter 2 order bytes).mapError .fault
    | none =>
      match Utf16.decode .littleEndian bytes with
      | .error f => .error (.fault f)
      | .ok text => if bytes.isEmpty then .ok text else .error .noMark

/-- A character that a name is made of. -/
def isNameCharacter (c : Char) : Bool :=
  c.isAlphanum || c == '.'

/-- The name with small letters and with one underscore for every run of other characters between
two parts. The flag tells whether such a run has just been left out after a part. -/
def plainFrom (gap : Bool) : Text → Text
  | [] => []
  | c :: rest =>
    if isNameCharacter c then
      if gap then '_' :: c.toLower :: plainFrom false rest else c.toLower :: plainFrom false rest
    else plainFrom true rest

def plainName (name : Text) : Text :=
  plainFrom false (name.dropWhile fun c => !isNameCharacter c)

/-- The plain names of the encodings. -/
def names : List (String × Encoding) :=
  [("utf_8", utf8), ("utf_8_sig", utf8Marked), ("utf_16", utf16Marked),
   ("utf_16_le", utf16 .littleEndian), ("utf_16_be", utf16 .bigEndian), ("latin_1", latin1),
   ("iso8859_1", latin1), ("ascii", ascii)]

/-- Further names. They hold with every underscore written as a point, too. -/
def aliases : List (String × Encoding) :=
  [("u8", utf8), ("utf", utf8), ("utf8", utf8), ("utf8_ucs2", utf8), ("utf8_ucs4", utf8),
   ("cp65001", utf8), ("u16", utf16Marked), ("utf16", utf16Marked),
   ("utf_16le", utf16 .littleEndian), ("unicodelittleunmarked", utf16 .littleEndian),
   ("utf_16be", utf16 .bigEndian), ("unicodebigunmarked", utf16 .bigEndian),
   ("8859", latin1), ("cp819", latin1), ("csisolatin1", latin1), ("ibm819", latin1),
   ("iso8859", latin1), ("iso8859_1", latin1), ("iso_8859_1", latin1),
   ("iso_8859_1_1987", latin1), ("iso_ir_100", latin1), ("l1", latin1), ("latin", latin1),
   ("latin1", latin1), ("646", ascii), ("ansi_x3_4_1968", ascii), ("ansi_x3.4_1986", ascii),
   ("cp367", ascii), ("csascii", ascii), ("ibm367", ascii), ("iso646_us", ascii),
   ("iso_646.irv_1991", ascii), ("iso_ir_6", ascii), ("us", ascii), ("us_ascii", ascii)]

/-- The plain names of transformations from bytes to bytes or from text to text. -/
def transformations : List String :=
  ["hex", "hex_codec", "base64", "base_64", "base64_codec", "bz2", "bz2_codec", "quopri",
   "quoted_printable", "quotedprintable", "quopri_codec", "rot13", "rot_13", "uu", "uu_codec",
   "zip", "zlib", "zlib_codec"]

def ofName? (name : Text) : Except NameFault Encoding :=
  let plain := plainName name
  let undotted := plain.map fun c => if c = '.' then '_' else c
  match names.lookup (String.ofList plain), aliases.lookup (String.ofList plain),
      aliases.lookup (String.ofList undotted) with
  | some e, _, _ => .ok e
  | none, some e, _ => .ok e
  | none, none, some e => .ok e
  | none, none, none =>
    if String.ofList plain ∈ transformations then .error (.notText name)
    else .error (.unknown name)

end Encoding

/-- How the bytes of a file are read. The text has no lone surrogates. -/
abbrev Codec := Bytes → Except UnreadableBytes Text

/-- The further codecs, each by the name that is asked for. -/
abbrev Codecs := Text → Option Codec

/-- The codec that a name stands for: one of the encodings, or a further one. A transformation is
none, whatever further codecs there are. -/
def Codec.ofName? (further : Codecs) (name : Text) : Except NameFault Codec :=
  match Encoding.ofName? name with
  | .ok e => .ok e.decode
  | .error (.notText name) => .error (.notText name)
  | .error (.unknown name) =>
    match further name with
    | some codec => .ok codec
    | none => .error (.unknown name)

theorem Codec.ofName?_of_encoding {name : Text} {e : Encoding} (further : Codecs)
    (known : Encoding.ofName? name = .ok e) : ofName? further name = .ok e.decode := by
  rw [ofName?, known]

end BearLex
