import BVisor.Data.OrderedTree
import BVisor.Tcp.Seqnum

/-! The scoreboard of selective acknowledgements. Its ranges are kept in a search tree of another
package, which enters as an ordered container. -/

namespace BVisor.Tcp

open Data

/-- A range of sequence numbers: the first one and the one after the last. -/
structure SACKBlock where
  start : Seqnum
  stop : Seqnum
deriving DecidableEq

def sackBlockLess (a b : SACKBlock) : Bool := Seqnum.lessThan a.start b.start

def SACKBlock.contains (r b : SACKBlock) : Bool :=
  Seqnum.lessThanEq r.start b.start && Seqnum.lessThanEq b.stop r.stop

def SACKBlock.size (r : SACKBlock) : BitVec 32 := Seqnum.size r.start r.stop

def maxSACKBlocks : Nat := 100

def nDupAckThreshold : Nat := 3

structure SACKScoreboard (tree : OrderedTree SACKBlock) where
  smss : BitVec 16
  maxSACKED : Seqnum
  sacked : BitVec 32
  ranges : tree.Tree

def ascendMerge (r : SACKBlock) : List SACKBlock → SACKBlock × List SACKBlock
  | [] => (r, [])
  | sacked :: rest =>
    if sacked = r then ascendMerge r rest
    else if Seqnum.lessThan r.stop sacked.start then (r, [])
    else if Seqnum.lessThan sacked.stop r.stop then
      let (merged, toDelete) := ascendMerge r rest
      (merged, sacked :: toDelete)
    else
      let (merged, toDelete) := ascendMerge { r with stop := sacked.stop } rest
      (merged, sacked :: toDelete)

def descendMerge (r : SACKBlock) : List SACKBlock → SACKBlock × List SACKBlock
  | [] => (r, [])
  | sacked :: rest =>
    if sacked = r then descendMerge r rest
    else if Seqnum.lessThan sacked.stop r.start then (r, [])
    else
      let stop := if Seqnum.lessThan r.stop sacked.stop then sacked.stop else r.stop
      let (merged, toDelete) := descendMerge ⟨sacked.start, stop⟩ rest
      (merged, sacked :: toDelete)

def coveredBy (r : SACKBlock) : List SACKBlock → Bool
  | [] => false
  | sacked :: rest =>
    if Seqnum.lessThan sacked.stop r.start then false
    else if sacked.contains r then true
    else coveredBy r rest

/-- The iteration of `Delete`: what to delete, what to insert and the new value of the counter. -/
def deleteScan (seq : Seqnum) (r : SACKBlock) :
    List SACKBlock → BitVec 32 → List SACKBlock × List SACKBlock × BitVec 32
  | [], sacked => ([], [], sacked)
  | sb :: rest, sacked =>
    if sb = r then deleteScan seq r rest sacked
    else if Seqnum.lessThanEq sb.stop seq then
      let (toDelete, toInsert, sacked) := deleteScan seq r rest (sacked - sb.size)
      (sb :: toDelete, toInsert, sacked)
    else
      let (toDelete, toInsert, sacked) := deleteScan seq r rest (sacked - Seqnum.size sb.start seq)
      (sb :: toDelete, ⟨seq, sb.stop⟩ :: toInsert, sacked)

/-- The second iteration of `IsRangeLost`, with the blocks and bytes counted so far. -/
def lostBelow (smss : BitVec 16) (r : SACKBlock) : Nat → BitVec 32 → List SACKBlock → Bool
  | _, _, [] => false
  | nDupSACK, nDupSACKBytes, sacked :: rest =>
    if sacked.contains r then false
    else
      let bytes := nDupSACKBytes + sacked.size
      -- The product is one of 16-bit numbers.
      if nDupSACK + 1 ≥ nDupAckThreshold ||
          (BitVec.ofNat 16 (nDupAckThreshold - 1) * smss).toNat ≤ bytes.toNat then true
      else lostBelow smss r (nDupSACK + 1) bytes rest

namespace SACKScoreboard

variable {tree : OrderedTree SACKBlock} (s : SACKScoreboard tree)

def newSACKScoreboard (smss : BitVec 16) (iss : Seqnum) : SACKScoreboard tree :=
  { smss, maxSACKED := iss, sacked := 0, ranges := tree.empty }

def items : List SACKBlock := tree.items s.ranges

def reset : SACKScoreboard tree := { s with ranges := tree.empty, sacked := 0 }

def remove (sb : SACKBlock) : SACKScoreboard tree :=
  let (ranges, ok) := tree.delete s.ranges sb
  { s with ranges, sacked := if ok then s.sacked - sb.size else s.sacked }

def insert (r : SACKBlock) : SACKScoreboard tree :=
  if s.items.length ≥ maxSACKBlocks then s
  else
    let (above, fromAbove) := ascendMerge r (tree.ascendGreaterOrEqual s.ranges r)
    let (merged, fromBelow) := descendMerge above (tree.descendLessOrEqual s.ranges above)
    let cleared := (fromAbove ++ fromBelow).foldl remove s
    let (ranges, replaced) := tree.replaceOrInsert cleared.ranges merged
    { cleared with
      ranges
      sacked := if replaced then cleared.sacked else cleared.sacked + merged.size
      maxSACKED :=
        if Seqnum.lessThan s.maxSACKED (r.stop - 1) then r.stop - 1 else s.maxSACKED }

def empty : Bool := s.items.length = 0

def isSACKED (r : SACKBlock) : Bool :=
  !s.empty && coveredBy r (tree.descendLessOrEqual s.ranges r)

def deleteBefore (seq : Seqnum) : SACKScoreboard tree :=
  if s.empty then s
  else
    let r : SACKBlock := ⟨seq, seq + 1⟩
    let (toDelete, toInsert, sacked) := deleteScan seq r (tree.descendLessOrEqual s.ranges r) s.sacked
    let ranges := toDelete.foldl (fun ranges sb => (tree.delete ranges sb).1) s.ranges
    { s with
      ranges := toInsert.foldl (fun ranges sb => (tree.replaceOrInsert ranges sb).1) ranges
      sacked }

def isRangeLost (r : SACKBlock) : Bool :=
  if s.empty then false
  else
    -- The first iteration looks at one block only.
    match tree.descendLessOrEqual s.ranges r with
    | [] => lostBelow s.smss r 0 0 (tree.ascendGreaterOrEqual s.ranges r)
    | sacked :: _ =>
      if sacked.contains r then false
      else
        let r := if Seqnum.lessThanEq sacked.stop r.start then r
          else { r with start := sacked.stop }
        lostBelow s.smss r 0 0 (tree.ascendGreaterOrEqual s.ranges r)

def isLost (seq : Seqnum) : Bool := s.isRangeLost ⟨seq, seq + 1⟩

end SACKScoreboard

end BVisor.Tcp
