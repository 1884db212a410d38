import Mathlib.Data.Rat.Defs
import Supacloud.Library.MultiQueue

/-!
# プロジェクトの設定の書き込み（`repositories/project-config-writes.ts`）

プレビューの受領書は、`config` 列のキー `application_previews` の配列に入る。どちらの書き込みも、
一つのトランザクションなので一歩とする。
-/

namespace Supacloud.ProjectConfig

open Library

/-! ## JSON の値 -/

structure Date where
  ms : ℤ
  valid : ms.natAbs ≤ 8640000000000000
  deriving DecidableEq

/-- `new Date(ms).toISOString()`。範囲の外では `RangeError` になる。 -/
def Date.ofMs (ms : ℤ) : Option Date := if h : ms.natAbs ≤ 8640000000000000 then some ⟨ms, h⟩ else none

/-- 文字列。`toISOString` の表記は時刻と一対一なので、時刻そのもので表す。`other` は、それ以外の文字列である。 -/
inductive Text where
  | date (time : Date)
  | other (s : String)
  deriving DecidableEq

inductive Json where
  | null
  | bool (b : Bool)
  | number (n : ℚ)
  | text (s : Text)
  | array (items : List Json)
  | object (fields : List (String × Json))

abbrev Object := List (String × Json)

def Json.fields? : Json → Option Object
  | .object fields => some fields
  | _ => none

def Object.set (key : String) (value : Json) (fields : Object) : Object := Assoc.erase key fields ++ [(key, value)]

/-- `===`。`none` は `undefined` である。別々に読んだ配列やオブジェクトは、等しくならない。 -/
def strictEq : Option Json → Option Json → Bool
  | none, none => true
  | some .null, some .null => true
  | some (.bool a), some (.bool b) => a == b
  | some (.number a), some (.number b) => a == b
  | some (.text a), some (.text b) => a == b
  | _, _ => false

def timestamp : Option Json → Option Date
  | some (.text (.date time)) => some time
  | _ => none

/-- 行の `config` 列。`encoded` は JSON の文字列で、その `JSON.parse` の結果と、`trim` した文字列の結果を持つ。`other` は、残りの真偽値、
数、配列である。 -/
inductive Column where
  | null
  | object (fields : Object)
  | encoded (parsed parsedTrimmed : Option Json)
  | other

inductive Failure where
  | error (message : String)
  | conflict
  | rangeError

def storedConfig : Column → Except Failure Object
  | .null => .ok []
  | .object fields => .ok fields
  | .encoded (some .null) _ => .ok []
  | .encoded (some (.object fields)) _ => .ok fields
  | .encoded _ _ => .error (.error "APPLICATION_PREVIEW_CONFIG_INVALID")
  | .other => .error (.error "APPLICATION_PREVIEW_CONFIG_INVALID")

def normalizeProjectConfig : Column → Object
  | .object fields => fields
  | .encoded _ (some (.object fields)) => fields
  | _ => []

/-! ## プレビューの書き込み -/

def schema : Text := .other "supacloud.application-preview.v1"

def isPreviewId : Option Json → Bool
  | some (.text (.other s)) =>
    8 ≤ s.length && s.length ≤ 64 && s.toList.all fun c => (97 ≤ c.toNat && c.toNat ≤ 102) || c.isDigit || c == '-'
  | _ => false

def receiptValid (projectRef : Text) (receipt : Object) (expectedUpdatedAt : Option Text) : Bool :=
  strictEq (Assoc.get "schema" receipt) (some (.text schema))
    && strictEq (Assoc.get "project_ref" receipt) (some (.text projectRef))
    && isPreviewId (Assoc.get "preview_id" receipt)
    && (timestamp (Assoc.get "created_at" receipt)).isSome
    && (timestamp (Assoc.get "updated_at" receipt)).isSome
    && (strictEq (Assoc.get "expires_at" receipt) (some .null) || strictEq (Assoc.get "expires_at" receipt) none
      || (timestamp (Assoc.get "expires_at" receipt)).isSome)
    && (expectedUpdatedAt.isNone || (timestamp (expectedUpdatedAt.map .text)).isSome)

/-- 保存されたプレビューを前から確かめる。`ids` は、そこまでに見た `preview_id` である。 -/
def checkPreviews (projectRef : Text) (ids : List Text) : List Json → Except Failure (List Object)
  | [] => .ok []
  | item :: rest =>
    match item with
    | .object fields =>
      match Assoc.get "preview_id" fields with
      | some (.text previewId) =>
        if !strictEq (Assoc.get "schema" fields) (some (.text schema))
          || !strictEq (Assoc.get "project_ref" fields) (some (.text projectRef))
          || (timestamp (Assoc.get "updated_at" fields)).isNone || previewId ∈ ids then
          .error (.error "APPLICATION_PREVIEW_CONFIG_INVALID")
        else (checkPreviews projectRef (previewId :: ids) rest).map (fields :: ·)
      | _ => .error (.error "APPLICATION_PREVIEW_CONFIG_INVALID")
    | _ => .error (.error "APPLICATION_PREVIEW_CONFIG_INVALID")

def readPreviews (projectRef : Text) (config : Object) : Except Failure (List Object) :=
  match Assoc.get "application_previews" config with
  | none => .ok []
  | some .null => .ok []
  | some (.array items) => checkPreviews projectRef [] items
  | some _ => .error (.error "APPLICATION_PREVIEW_CONFIG_INVALID")

def samePreview (receipt item : Object) : Bool := strictEq (Assoc.get "preview_id" item) (Assoc.get "preview_id" receipt)

def tokenChanged (current : Option Object) : Option Text → Bool
  | none => current.isSome
  | some expectedUpdatedAt => !strictEq (current.bind (Assoc.get "updated_at")) (some (.text expectedUpdatedAt))

def identityChanged (receipt current : Object) : Bool :=
  !strictEq (Assoc.get "application_id" current) (Assoc.get "application_id" receipt)
    || !strictEq (Assoc.get "environment_id" current) (Assoc.get "environment_id" receipt)
    || !strictEq (Assoc.get "release_id" current) (Assoc.get "release_id" receipt)
    || !strictEq (Assoc.get "created_at" current) (Assoc.get "created_at" receipt)
    || !strictEq (some ((Assoc.get "expires_at" current).getD .null)) (some ((Assoc.get "expires_at" receipt).getD .null))
    || (strictEq (Assoc.get "status" current) (some (.text (.other "cleaned")))
      && !strictEq (Assoc.get "status" receipt) (some (.text (.other "cleaned"))))

/-- 新しい `updated_at`。時計は、同じ時刻をまた返すことも、戻ることもある。 -/
def nextUpdatedAt (receipt : Object) (now : Date) : Option Text → Option Date
  | none => (timestamp (Assoc.get "updated_at" receipt)).bind fun time => Date.ofMs (max now.ms time.ms)
  | some expected => (timestamp (some (.text expected))).bind fun time => Date.ofMs (max now.ms (time.ms + 1))

def nextPreviews (index : Option ℕ) (receipt : Object) (previews : List Object) : List Object :=
  match index with
  | none => previews ++ [receipt]
  | some index => previews.set index receipt

/-- `persistApplicationPreview` のトランザクション。返す受領書と、書いた文書の組。`row` は生きている行の列である。 -/
def persistApplicationPreview (projectRef : Text) (input : Object) (expectedUpdatedAt : Option Text) (now : Date) (row : Option Column) :
    Except Failure (Object × Object) :=
  if receiptValid projectRef input expectedUpdatedAt then
    match row with
    | none => .error (.error "APPLICATION_PREVIEW_PROJECT_NOT_FOUND")
    | some column =>
      match storedConfig column with
      | .error e => .error e
      | .ok config =>
        match readPreviews projectRef config with
        | .error e => .error e
        | .ok previews =>
          let index := previews.findIdx? (samePreview input)
          let current := index.bind (previews[·]?)
          if tokenChanged current expectedUpdatedAt then .error .conflict
          else if current.any (identityChanged input) then .error .conflict
          else
            match nextUpdatedAt input now expectedUpdatedAt with
            | none => .error .rangeError
            | some time =>
              let receipt := Object.set "updated_at" (.text (.date time)) input
              let next := (nextPreviews index receipt previews).map .object
              .ok (receipt, Object.set "application_previews" (.array next) config)
  else .error (.error "APPLICATION_PREVIEW_RECEIPT_INVALID")

/-! ## 設定の置き換え -/

/-- 行の列がオブジェクトで、キーを持つときは、その値で上書きする。 -/
def keepFromRow (key : String) (column : Column) (next : Object) : Object :=
  match column with
  | .object fields =>
    match Assoc.get key fields with
    | some value => Object.set key value next
    | none => next
  | _ => next

def replaceProjectConfig (config : Object) : Option Column → Option Column
  | none => none
  | some column =>
    let next := Assoc.erase "application_previews" (Assoc.erase "scheduled_functions" config)
    some (.object (keepFromRow "application_previews" column (keepFromRow "scheduled_functions" column next)))

/-- 一つのトランザクション。`committed` は、確定したかどうかで、確定の返事が呼び手に届いたかどうかによらない。 -/
inductive Event where
  | persistApplicationPreview (input : Object) (expectedUpdatedAt : Option Text) (now : Date) (committed : Bool)
  | replaceProjectConfig (config : Object) (committed : Bool)

def step (projectRef : Text) (row : Option Column) : Event → Option Column
  | .persistApplicationPreview input expectedUpdatedAt now true =>
    match persistApplicationPreview projectRef input expectedUpdatedAt now row with
    | .ok (_, updated) => some (.object updated)
    | .error _ => row
  | .replaceProjectConfig config true => replaceProjectConfig config row
  | _ => row

end Supacloud.ProjectConfig
