import Mathlib.Data.BitVec
import IcoZip.Library.RunLength

/-! The words of a compressed scope: data, or the length of a run with the top bit set. -/

set_option autoImplicit false

namespace IcoZip.Wbscopc

open RunLength (Item)

def isAddress (word : BitVec 32) : Bool := word.getLsbD 31

def run (word : BitVec 32) : BitVec 32 := word &&& 0x7fffffff

/-- An address word repeats the sample before it, once for a run of zero. -/
def item (word : BitVec 32) : Item (BitVec 32) :=
  if isAddress word then .again ((run word).toNat + 1) else .sample word

theorem item_address {word : BitVec 32} (address : isAddress word = true) :
    item word = .again ((run word).toNat + 1) := if_pos address

theorem item_data {word : BitVec 32} (data : isAddress word = false) : item word = .sample word :=
  if_neg (by simp [data])

theorem run_lt (word : BitVec 32) : (run word).toNat < 2 ^ 31 := by
  have mask := Nat.and_two_pow_sub_one_eq_mod word.toNat 31
  rw [run, BitVec.toNat_and]
  exact lt_of_eq_of_lt mask (Nat.mod_lt _ (by decide))

theorem span_item_le (word : BitVec 32) : (item word).span ≤ 2 ^ 31 := by
  cases address : isAddress word with
  | false => simp [item_data address, Item.span]
  | true =>
    rw [item_address address]
    exact run_lt word

theorem total_items_le (words : List (BitVec 32)) : RunLength.total (words.map item) ≤ 2 ^ 31 * words.length := by
  induction words with
  | nil => simp
  | cons word rest ih =>
    have := span_item_le word
    simp only [List.map_cons, RunLength.total_cons, List.length_cons]
    omega

end IcoZip.Wbscopc
