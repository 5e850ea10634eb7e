import ChainRelay.Digest.Hmac
import ChainRelay.Text.Raw
import ChainRelay.Wallet.WordList

/-! # Recovery phrases

A phrase writes entropy with words of eleven bits each; the last word ends in a checksum. -/

namespace ChainRelay.Wallet

open Digest

/-- Why a text is no recovery phrase. -/
inductive PhraseError where
  /-- The word is not in the list. -/
  | unknownWord (word : String)
  /-- The words hold a wrong number of bytes. -/
  | wrongLength (bytes : Nat)
  /-- The entropy of the words is written in another way. -/
  | wrongPhrase (phrase : String)
  deriving DecidableEq, Repr

/-- The wording of a refusal. -/
def PhraseError.message : PhraseError → String
  | .unknownWord word => "the word `" ++ word ++ "` is invalid"
  | .wrongLength bytes => "the mnemonic's entropy length `" ++ Nat.repr bytes ++ "` is invalid"
  | .wrongPhrase phrase => "the phrase `" ++ phrase ++ "` is invalid"

/-- The number of bits that a word writes. -/
def bitsPerWord : Nat := 11

/-- The lowest bits of a number, the highest first. -/
def lowBits (count n : Nat) : List Bool :=
  ((List.range count).map n.testBit).reverse

/-- The number that bits write. -/
def ofBits (bits : List Bool) : Nat :=
  bits.foldl (fun n b => 2 * n + b.toNat) 0

/-- Cut a list into pieces of a length; the last may be shorter. -/
def pieces (size : Nat) : (fuel : Nat) → List α → List (List α)
  | 0, _ => []
  | fuel + 1, xs => if xs.isEmpty then [] else xs.take size :: pieces size fuel (xs.drop size)

/-- The bytes that bits write, the last one filled up with zeros. -/
def bytesOfBits (bits : List Bool) : List UInt8 :=
  (pieces 8 bits.length bits).map fun piece =>
    UInt8.ofNat (ofBits (piece ++ List.replicate (8 - piece.length) false))

/-- The indices of words. -/
def wordIndices : List String → Except PhraseError (List Nat)
  | [] => .ok []
  | word :: rest =>
    match wordIndex? word with
    | none => .error (.unknownWord word)
    | some n => (wordIndices rest).map (n :: ·)

/-- The number of bytes of entropy in a phrase that holds so many bytes, with or without the
checksum. -/
def entropySize? (bytes : Nat) : Option Nat :=
  if bytes = 16 ∨ bytes = 17 then some 16
  else if bytes = 20 ∨ bytes = 21 then some 20
  else if bytes = 24 ∨ bytes = 25 then some 24
  else if bytes = 28 ∨ bytes = 29 then some 28
  else if bytes = 32 ∨ bytes = 33 then some 32
  else none

/-- The phrase that writes entropy: one bit of checksum for every four bytes. -/
def phraseOf (entropy : List UInt8) : String :=
  let checksum := (sha256 entropy).flatMap fun b => lowBits 8 b.toNat
  let bits := (entropy.flatMap fun b => lowBits 8 b.toNat) ++ checksum.take (entropy.length / 4)
  let indices := (pieces bitsPerWord bits.length bits).map ofBits
  String.intercalate " " (indices.map fun n => englishTable.getD n "")

/-- Check a phrase: its words hold entropy, and are how that entropy is written. -/
def checkPhrase (phrase : String) : Except PhraseError Unit := do
  let indices ← wordIndices (phrase.splitOn " ")
  let bytes := bytesOfBits (indices.flatMap (lowBits bitsPerWord))
  match entropySize? bytes.length with
  | none => throw (.wrongLength bytes.length)
  | some size =>
    if phraseOf (bytes.take size) = phrase then return ()
    else throw (.wrongPhrase phrase)

/-- The seed of a phrase. -/
def seedOf (phrase : String) : List UInt8 :=
  Hash.sha512.derive (utf8Bytes phrase) (utf8Bytes "mnemonic") 2048

end ChainRelay.Wallet
