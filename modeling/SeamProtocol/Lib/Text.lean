import Mathlib.Data.List.DropRight
import SeamProtocol.Lib.Bytes

/-! # Text

Text is a list of characters; in a file it is encoded in UTF-8. This file has what `str` does with lines
and white space, and hexadecimal numerals. -/

namespace Lib

open List Option

abbrev Text := List Char

/-! ## UTF-8 -/

def utf8 (t : Text) : Bytes := t.flatMap String.utf8EncodeChar

def fromUtf8 (bs : Bytes) : Option Text := bs.toByteArray.utf8Decode?.map Array.toList

theorem utf8_append (t u : Text) : utf8 (t ++ u) = utf8 t ++ utf8 u := flatMap_append

@[simp] theorem fromUtf8_utf8 (t : Text) : fromUtf8 (utf8 t) = some t := by
  have hdecode : (utf8 t).toByteArray.utf8Decode? = some t.toArray := utf8Decode?_utf8Encode
  rw [fromUtf8, hdecode]
  rfl

/-! ## Lines -/

def stripCr (line : Text) : Text := if line.getLast? = some '\r' then line.dropLast else line

def linesFrom (start : Text) : Text → List Text
  | [] => if start = [] then [] else [start]
  | c :: rest => if c = '\n' then stripCr start :: linesFrom [] rest else linesFrom (start ++ [c]) rest

def lines (t : Text) : List Text := linesFrom [] t

def unlines (ls : List Text) : Text := ls.flatMap fun line => line ++ ['\n']

theorem linesFrom_append (start line rest : Text) (hline : '\n' ∉ line) :
    linesFrom start (line ++ '\n' :: rest) = stripCr (start ++ line) :: lines rest := by
  induction line generalizing start with
  | nil => rw [nil_append, linesFrom, if_pos rfl, append_nil, lines]
  | cons c line ih =>
    have hc : c ≠ '\n' := fun heq => hline (heq ▸ mem_cons_self)
    simp [linesFrom, hc, ih _ fun hmem => hline (mem_cons_of_mem c hmem)]

theorem lines_append (line rest : Text) (hline : '\n' ∉ line) :
    lines (line ++ '\n' :: rest) = stripCr line :: lines rest :=
  linesFrom_append [] line rest hline

variable {c : Char}

theorem stripCr_concat (hc : c ≠ '\r') (line : Text) : stripCr (line ++ [c]) = line ++ [c] := by
  rw [stripCr, if_neg]
  simpa using hc

theorem lines_unlines {ls : List Text} (hbreak : ∀ line ∈ ls, '\n' ∉ line)
    (hcr : ∀ line ∈ ls, stripCr line = line) : lines (unlines ls) = ls := by
  induction ls with
  | nil => rfl
  | cons line ls ih =>
    rw [forall_mem_cons] at hbreak hcr
    simpa [unlines, lines_append line _ hbreak.1, hcr.1] using congrArg (line :: ·) (ih hbreak.2 hcr.2)

variable {line : Text}

theorem mem_of_mem_stripCr (hmem : c ∈ stripCr line) : c ∈ line := by
  unfold stripCr at hmem
  split_ifs at hmem
  · exact dropLast_subset line hmem
  · exact hmem

variable {t : Text}

theorem newline_not_mem_linesFrom {start : Text} (hstart : '\n' ∉ start)
    (hline : line ∈ linesFrom start t) : '\n' ∉ line := by
  induction t generalizing start with
  | nil =>
    rw [linesFrom] at hline
    split_ifs at hline
    · cases hline
    · rw [mem_singleton.mp hline]
      exact hstart
  | cons c t ih =>
    rw [linesFrom] at hline
    split_ifs at hline with hc
    · rcases mem_cons.mp hline with rfl | hrest
      · exact fun hmem => hstart (mem_of_mem_stripCr hmem)
      · exact ih not_mem_nil hrest
    · refine ih ?_ hline
      rw [mem_append, mem_singleton]
      rintro (hmem | rfl)
      · exact hstart hmem
      · exact hc rfl

theorem newline_not_mem_of_mem_lines (hline : line ∈ lines t) : '\n' ∉ line :=
  newline_not_mem_linesFrom not_mem_nil hline

def lastLine (t : Text) : Text := (t.rdropWhile (· = '\n')).rtakeWhile (· ≠ '\n')

/-! ## White space -/

def isWhite (c : Char) : Bool :=
  let n := c.toNat
  (0x09 ≤ n && n ≤ 0x0d) || n = 0x20 || n = 0x85 || n = 0xa0 || n = 0x1680 || (0x2000 ≤ n && n ≤ 0x200a)
    || n = 0x2028 || n = 0x2029 || n = 0x202f || n = 0x205f || n = 0x3000

def trim (t : Text) : Text := (t.dropWhile isWhite).rdropWhile isWhite

theorem trim_eq_self (hhead : ∀ c ∈ t.head?, isWhite c = false)
    (hlast : ∀ c ∈ t.getLast?, isWhite c = false) : trim t = t := by
  cases t with
  | nil => rfl
  | cons c t =>
    have hdrop : (c :: t).dropWhile isWhite = c :: t :=
      dropWhile_cons_of_neg (by rw [hhead c rfl]; exact Bool.false_ne_true)
    rw [trim, hdrop, rdropWhile_eq_self_iff]
    intro hne
    rw [hlast _ (getLast?_eq_some_getLast hne)]
    exact Bool.false_ne_true

theorem isWhite_of_mem_head_trim (hc : c ∈ (trim t).head?) : isWhite c = false := by
  have hprefix : trim t <+: t.dropWhile isWhite := rdropWhile_prefix _ _
  obtain ⟨u, hu⟩ := hprefix
  have hhead : (t.dropWhile isWhite).head? = some c := by
    rw [← hu, head?_append, mem_def.mp hc]
    rfl
  have hnot := head?_dropWhile_not isWhite t
  rw [hhead] at hnot
  exact hnot

theorem isWhite_of_mem_getLast_trim (hc : c ∈ (trim t).getLast?) : isWhite c = false := by
  obtain ⟨hne, hlast⟩ := mem_getLast?_eq_getLast hc
  rw [hlast]
  exact Bool.eq_false_iff.mpr (rdropWhile_last_not isWhite (t.dropWhile isWhite) hne)

theorem mem_of_mem_trim (hc : c ∈ trim t) : c ∈ t :=
  (dropWhile_sublist isWhite).mem (( rdropWhile_prefix isWhite _).sublist.mem hc)

theorem trim_trim (t : Text) : trim (trim t) = trim t :=
  trim_eq_self (fun _ => isWhite_of_mem_head_trim) fun _ => isWhite_of_mem_getLast_trim

theorem isWhite_of_trim_eq_nil (ht : trim t = []) : ∀ c ∈ t, isWhite c = true := by
  have hdrop : t.dropWhile isWhite = [] := by
    cases hcase : t.dropWhile isWhite with
    | nil => rfl
    | cons c rest =>
      -- the first character that was not dropped is not white space, but all that are left are
      have hnot : isWhite c = false := by
        have hfirst := head?_dropWhile_not isWhite t
        rw [hcase] at hfirst
        exact hfirst
      rw [trim, rdropWhile_eq_nil_iff] at ht
      rw [ht c (hcase ▸ mem_cons_self)] at hnot
      cases hnot
  exact dropWhile_eq_nil_iff.mp hdrop

/-! ## Hexadecimal numerals -/

def hexValue (c : Char) : Option Nat :=
  if '0' ≤ c ∧ c ≤ '9' then some (c.toNat - 48)
  else if 'a' ≤ c ∧ c ≤ 'f' then some (c.toNat - 87)
  else if 'A' ≤ c ∧ c ≤ 'F' then some (c.toNat - 55)
  else none

theorem hexValue_digitChar : ∀ n < 16, hexValue (Nat.digitChar n) = some n := by decide

def hexEncode (bs : Bytes) : Text :=
  bs.flatMap fun b => [Nat.digitChar (b.toNat / 16), Nat.digitChar (b.toNat % 16)]

def hexDecode : Text → Option Bytes
  | [] => some []
  | [_] => none
  | hi :: lo :: rest =>
    (hexValue hi).bind fun h => (hexValue lo).bind fun l =>
      (hexDecode rest).map fun bs => UInt8.ofNat (16 * h + l) :: bs

theorem hexDecode_hexEncode (bs : Bytes) : hexDecode (hexEncode bs) = some bs := by
  induction bs with
  | nil => rfl
  | cons b bs ih =>
    have hlt : b.toNat < 256 := b.toNat_lt
    have hbyte : UInt8.ofNat (16 * (b.toNat / 16) + b.toNat % 16) = b := by
      rw [Nat.div_add_mod]
      exact UInt8.ofNat_toNat
    rw [hexEncode, flatMap_cons, cons_append, cons_append, nil_append, hexDecode,
      hexValue_digitChar _ (by omega), hexValue_digitChar _ (by omega), bind_some,
      bind_some, ← hexEncode, ih, map_some, hbyte]

variable {bs : Bytes}

theorem exists_of_mem_hexEncode (hc : c ∈ hexEncode bs) : ∃ n < 16, c = Nat.digitChar n := by
  obtain ⟨b, _, hmem⟩ := mem_flatMap.mp hc
  have hlt : b.toNat < 256 := b.toNat_lt
  rw [mem_cons, mem_singleton] at hmem
  rcases hmem with rfl | rfl
  · exact ⟨_, by omega, rfl⟩
  · exact ⟨_, by omega, rfl⟩

theorem isWhite_of_mem_hexEncode (hc : c ∈ hexEncode bs) : isWhite c = false := by
  have hdigit : ∀ n < 16, isWhite (Nat.digitChar n) = false := by decide
  obtain ⟨n, hn, rfl⟩ := exists_of_mem_hexEncode hc
  exact hdigit n hn

theorem hexEncode_injective : Function.Injective hexEncode := by
  intro a b h
  have hsome : some a = some b := by rw [← hexDecode_hexEncode, h, hexDecode_hexEncode]
  exact Option.some.inj hsome

end Lib
