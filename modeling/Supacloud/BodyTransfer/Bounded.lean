import Supacloud.BodyTransfer.Transfer

/-!
# 長さを限った本体の読み取り（edge-runtime/body-transfer.ts の `readBoundedBody`）

どの段で予約が断られ、いつ中断されるかは、`Environment` による。
-/

namespace Supacloud.BodyTransfer

inductive BodyError where
  | limit
  | refused
  | aborted

/-- `refuses` は、それまでの予約の列の後で、次の予約を断るかどうか。`aborted` は、n 度読んだ後に、中断されているかどうか。 -/
structure Environment where
  refuses : List ℕ → ℕ → Bool
  aborted : ℕ → Bool

structure Allocation where
  reserved : ℕ
  capacity : ℕ
  allocated : ℕ

structure Reading where
  chunks : List Chunk := []
  total : ℕ := 0
  allocated : ℕ := 0
  pageUsed : ℕ := 0
  log : List Allocation := []
  failed : Option BodyError := none

def setBytes (page bytes : Chunk) (offset : ℕ) : Chunk := page.take offset ++ bytes ++ page.drop (offset + bytes.length)

namespace Reading

variable (env : Environment) (limit : ℕ) (s : Reading)

def openPage? : Option Chunk := s.chunks.getLast?.filter fun page => s.pageUsed ≠ page.length

def capacity : ℕ := min bodyChunkBytes (limit - s.allocated)

def withPage (capacity reserved : ℕ) : Reading :=
  { s with
    chunks := s.chunks ++ [List.replicate capacity 0]
    allocated := s.allocated + capacity
    pageUsed := 0
    log := s.log ++ [⟨reserved, capacity, s.allocated + capacity⟩] }

def allocate : Reading :=
  let reserved := (s.allocated + s.capacity limit) * 2
  if env.refuses (s.log.map Allocation.reserved) reserved then { s with failed := some .refused }
  else s.withPage (s.capacity limit) reserved

def fill (rest : Chunk) : Reading × Chunk :=
  match s.chunks.getLast? with
  | none => (s, rest)
  | some page =>
    let bytes := min (page.length - s.pageUsed) rest.length
    ({ s with chunks := s.chunks.dropLast ++ [setBytes page (rest.take bytes) s.pageUsed], pageUsed := s.pageUsed + bytes },
      rest.drop bytes)

/-- 頁に写す内側の繰り返し。rest は、かたまりの `offset` より後である。fuel 回で終わらなければ `none` を返す。 -/
def copy : (fuel : ℕ) → (s : Reading) → (rest : Chunk) → Option Reading
  | _, s, [] => some s
  | 0, _, _ :: _ => none
  | fuel + 1, s, rest@(_ :: _) =>
    let s := if s.openPage?.isSome then s else s.allocate env limit
    if s.failed.isSome then some s
    else
      let (s, rest) := s.fill rest
      copy fuel s rest

def receive (fuel : ℕ) : (s : Reading) → (reads : ℕ) → List Chunk → Option Reading
  | s, reads, [] => some (if env.aborted (reads + 1) then { s with failed := some .aborted } else s)
  | s, reads, value :: rest =>
    if env.aborted (reads + 1) then some { s with failed := some .aborted }
    else if value.length = 0 then receive fuel s (reads + 1) rest
    else
      let s := { s with total := s.total + value.length }
      if s.total > limit then some { s with failed := some .limit }
      else do
        let s ← s.copy env limit fuel value
        if s.failed.isSome then some s else receive fuel s (reads + 1) rest

def output : Chunk :=
  (s.chunks.foldl (fun (out, offset) chunk =>
    let bytes := min chunk.length (s.total - offset)
    (setBytes out (chunk.take bytes) offset, offset + bytes)) (List.replicate s.total 0, 0)).1

end Reading

def readBoundedBody (env : Environment) (limit fuel : ℕ) (body : List Chunk) : Option (Reading × Except BodyError Chunk) :=
  let read := if env.aborted 0 then some { failed := some .aborted } else Reading.receive env limit fuel {} 0 body
  read.map fun s =>
    match s.failed with
    | some e => (s, .error e)
    | none => (s, .ok s.output)

end Supacloud.BodyTransfer
