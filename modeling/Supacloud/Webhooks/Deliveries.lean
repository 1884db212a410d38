import Supacloud.Library.Numbers

/-!
# 配達の一覧（management-api/src/services/webhook-delivery.service.ts）

行の `created_at`（マイクロ秒）は `Date` で届き、ミリ秒に切り捨てられる。`decodeCursor` は
`encodeCursor` の書いた ISO の時刻と `id` を返すので、`Cursor` はその組とする。
-/

namespace Supacloud.Webhooks

open Library

structure Delivery where
  id : ℕ
  projectRef : String
  webhookId : ℕ
  createdAt : ℤ
  status : String
  eventType : String
deriving DecidableEq

structure Deliveries where
  rows : List Delivery
  keys : (rows.map (·.id)).Nodup

structure Cursor where
  createdAt : ℤ
  id : ℕ

/-- 絞り込みの値は、空白を除き、空なら `none` にしたものである。 -/
structure ListInput where
  limit : Option Number := none
  status : Option String := none
  event : Option String := none
  fromTime : Option ℤ := none
  toTime : Option ℤ := none

/-- `Math.min(100, Math.max(1, Math.trunc(input.limit || 50)))` -/
def pageLimit : Option Number → ℕ
  | none | some .nan => 50
  | some (.infinite negative) => if negative then 1 else 100
  | some (.finite q) => if q = 0 then 50 else min 100 (max 1 (q.num.tdiv q.den).toNat)

def encodeCursor (row : Delivery) : Cursor := { createdAt := row.createdAt / 1000 * 1000, id := row.id }

def Cursor.above (cursor : Cursor) (row : Delivery) : Bool :=
  row.createdAt < cursor.createdAt || row.createdAt = cursor.createdAt && row.id < cursor.id

def Delivery.first (a b : Delivery) : Bool := b.createdAt < a.createdAt || b.createdAt = a.createdAt && b.id ≤ a.id

structure Page where
  items : List Delivery
  total : ℕ
  nextCursor : Option Cursor

variable (table : List Delivery) (ref : String) (webhookId : ℕ) (input : ListInput)

def ListInput.selects (row : Delivery) : Bool :=
  row.projectRef = ref && row.webhookId = webhookId && input.status.all (row.status = ·) && input.event.all (row.eventType = ·)
    && input.fromTime.all (· ≤ row.createdAt) && input.toTime.all (row.createdAt ≤ ·)

def listDeliveries (cursor : Option Cursor) : Page :=
  let limit := pageLimit input.limit
  let selected := table.filter fun row => input.selects ref webhookId row && cursor.all (·.above row)
  let rows := (selected.mergeSort Delivery.first).take (limit + 1)
  let items := rows.take limit
  { items
    total := table.countP (input.selects ref webhookId)
    nextCursor := if limit < rows.length then items.getLast?.map encodeCursor else none }

/-- `next_cursor` を、なくなるまでたどる。`fuel` 頁のうちに終わらなければ `none` になる。 -/
def followPages : (fuel : ℕ) → Option Cursor → Option (List Delivery)
  | 0, _ => none
  | fuel + 1, cursor =>
    let page := listDeliveries table ref webhookId input cursor
    match page.nextCursor with
    | none => some page.items
    | some next => (followPages fuel (some next)).map (page.items ++ ·)

end Supacloud.Webhooks
