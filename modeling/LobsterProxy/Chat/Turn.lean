import LobsterProxy.Base.SortedMap
import LobsterProxy.Chat.Pieces

/-! An upstream turn as a whole: how it has finished, which tool calls it has made and what
it has thought, whatever converter has listened to it. -/

namespace Lobster.Chat
open Trace

def finalId : List ToolCallDelta → Option String
  | [] => none
  | first :: later => some ((lastNonEmpty (later.map ToolCallDelta.id)).getD (first.id.getD ""))

def noteCall (ids : SortedMap Int String) : Piece → SortedMap Int String
  | .call call => ids.insert call.index (keepOr call.id ((ids.find? call.index).getD ""))
  | _ => ids

def turnIds (pieces : List Piece) : SortedMap Int String := pieces.foldl noteCall .empty

structure Turn where
  finishReason : Option String
  ids : SortedMap Int String
  reasoning : String

def Turn.of (chunks : List Json) : Turn :=
  let pieces := chunks.flatMap chunkPieces
  ⟨lastFinish (chunks.flatMap chunkDeltas), turnIds pieces, reasonings pieces⟩

theorem keepOr_empty (s : Option String) : keepOr s "" = s.getD "" := by
  rw [keepOr_eq]
  split_ifs with hempty
  · exact hempty.symm
  · rfl

theorem finalId_snoc (calls : List ToolCallDelta) (call : ToolCallDelta) :
    finalId (calls ++ [call]) = some (keepOr call.id ((finalId calls).getD "")) := by
  cases calls with
  | nil =>
    rw [finalId, Option.getD_none, keepOr_empty]
    rfl
  | cons first later =>
    rw [List.cons_append, finalId, List.map_append, List.map_singleton, lastNonEmpty_snoc]
    rfl

theorem turnIds_snoc (pieces : List Piece) (piece : Piece) :
    turnIds (pieces ++ [piece]) = noteCall (turnIds pieces) piece := by
  unfold turnIds
  rw [List.foldl_append]
  rfl

theorem find?_turnIds (pieces : List Piece) (index : Int) :
    (turnIds pieces).find? index = finalId (callsAt index pieces) := by
  induction pieces using List.reverseRecOn with
  | nil => rfl
  | append_singleton pieces piece ih =>
    rw [turnIds_snoc, callsAt_snoc]
    cases piece with
    | reasoning text => simpa [noteCall, Piece.callAt?] using ih
    | content text => simpa [noteCall, Piece.callAt?] using ih
    | call call =>
      rw [noteCall, SortedMap.find?_insert, Piece.callAt?]
      split_ifs with hindex
      · subst hindex
        rw [Option.toList_some, finalId_snoc, ← ih]
      · simpa using ih

theorem mapValues_eq_turnIds {σ : Type} {slots : SortedMap Int σ} {id : σ → String}
    {pieces : List Piece}
    (h : ∀ index, (slots.find? index).map id = finalId (callsAt index pieces)) :
    slots.mapValues id = turnIds pieces := by
  apply SortedMap.ext_find?
  intro index
  rw [SortedMap.find?_mapValues, find?_turnIds, h]

section Arguments
variable {pieces : List Piece} {index : Int}

def argumentBytes : Piece → Nat
  | .call call => (call.arguments.getD "").utf8ByteSize
  | _ => 0

def noteArguments (written : SortedMap Int String) : Piece → SortedMap Int String
  | .call call =>
    written.insert call.index ((written.find? call.index).getD "" ++ call.arguments.getD "")
  | _ => written

def turnArguments (pieces : List Piece) : SortedMap Int String := pieces.foldl noteArguments .empty

theorem turnArguments_snoc (pieces : List Piece) (piece : Piece) :
    turnArguments (pieces ++ [piece]) = noteArguments (turnArguments pieces) piece := by
  unfold turnArguments
  rw [List.foldl_append]
  rfl

theorem argumentsAt_of_callsAt (h : callsAt index pieces = []) : argumentsAt index pieces = "" := by
  rw [argumentsAt_eq, h]
  rfl

theorem find?_turnArguments (pieces : List Piece) (index : Int) :
    (turnArguments pieces).find? index =
    if callsAt index pieces = [] then none else some (argumentsAt index pieces) := by
  induction pieces using List.reverseRecOn with
  | nil => rfl
  | append_singleton pieces piece ih =>
    rw [turnArguments_snoc, callsAt_snoc, argumentsAt_snoc]
    cases piece with
    | reasoning text => simpa [noteArguments, Piece.callAt?, Piece.arguments?] using ih
    | content text => simpa [noteArguments, Piece.callAt?, Piece.arguments?] using ih
    | call call =>
      have hcall : (Piece.call call).callAt? index = if call.index = index then
          some call else none := rfl
      unfold Piece.arguments?
      rw [noteArguments, SortedMap.find?_insert, hcall]
      by_cases hindex : call.index = index
      · subst hindex
        have hcalled : callsAt call.index pieces ++ (some call).toList ≠ [] := by simp
        rw [if_pos rfl, if_pos rfl, if_neg hcalled, ih]
        split_ifs with hfirst
        · rw [argumentsAt_of_callsAt hfirst]
          rfl
        · rfl
      · rw [if_neg hindex, if_neg hindex, ih]
        simp

theorem weight_turnArguments (pieces : List Piece) :
    (turnArguments pieces).weight String.utf8ByteSize = (pieces.map argumentBytes).sum := by
  induction pieces using List.reverseRecOn with
  | nil => rfl
  | append_singleton pieces piece ih =>
    rw [turnArguments_snoc, List.map_append, List.sum_append, ← ih, List.map_singleton,
      List.sum_singleton]
    cases piece with
    | reasoning text => rfl
    | content text => rfl
    | call call =>
      have hremove := SortedMap.weight_remove String.utf8ByteSize (turnArguments pieces) call.index
      have hold (old : Option String) : (old.map String.utf8ByteSize).getD 0 =
          (old.getD "").utf8ByteSize := by
        cases old <;> rfl
      rw [hold] at hremove
      rw [noteArguments, SortedMap.weight_insert, String.utf8ByteSize_append, hremove,
        argumentBytes]
      omega

theorem weight_arguments {σ : Type} {slots : SortedMap Int σ} {arguments : σ → String}
    (h : ∀ index, (slots.find? index).map arguments =
      if callsAt index pieces = [] then none else some (argumentsAt index pieces)) :
    (slots.values.map fun slot => (arguments slot).utf8ByteSize).sum =
      (pieces.map argumentBytes).sum := by
  have hslots : slots.mapValues arguments = turnArguments pieces := by
    apply SortedMap.ext_find?
    intro index
    rw [SortedMap.find?_mapValues, find?_turnArguments, h]
  rw [← weight_turnArguments, ← hslots]
  unfold SortedMap.weight
  rw [SortedMap.values_mapValues, List.map_map]
  rfl

end Arguments

end Lobster.Chat
