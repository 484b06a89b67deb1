import TtLedger.Ingest.Net

/-!
# Clusters and routing

Candidates are clustered by time (`clusterByTime`), and the rows of a cluster are split over the
open groups they close (`routeCluster`). A closing row goes to the first open group that still
holds an offsetting net in its security; the nets are drawn down as rows are assigned
(`drawDown`), so that several closes of one cluster spread over the groups they offset. A closing
row nobody holds falls back to the first group with a member in its security.
-/

namespace TtLedger

/-- The window within which transactions cluster into one group. -/
def groupTolerance : Int := 5 * second

/-- The window within which a close and an open are one roll. -/
def rollTolerance : Int := 60 * second

/-- An open trade group and its member rows. -/
structure OpenGroup where
  pk : ℕ
  rows : List TxnRow
  deriving DecidableEq

namespace OpenGroup

/-- The securities of the members. -/
def securityIds (g : OpenGroup) : List String :=
  (g.rows.filter fun r => truthy r.securityId).map TxnRow.sid

/-- The rows whose transactions the group does not hold yet. -/
def newRows (g : OpenGroup) (rows : List TxnRow) : List TxnRow :=
  rows.filter fun r => r.ttTransactionId ∉ g.rows.map TxnRow.ttTransactionId

/-- Add rows as members, skipping transactions already held. -/
def extendUnique (g : OpenGroup) (rows : List TxnRow) : OpenGroup :=
  { g with rows := g.rows ++ g.newRows rows }

end OpenGroup

/-! ## Clustering by time -/

/-- Append a dated row to the last cluster when it is close enough to that cluster's last row,
else start a cluster with it. -/
def addToClusters (clusters : List (List ActivityRow)) (row : ActivityRow) :
    List (List ActivityRow) :=
  match clusters.getLast? with
  | none => [[row]]
  | some cluster =>
    let gap := cluster.getLast?.map fun prev => row.executedAt.getD 0 - prev.executedAt.getD 0
    if gap.any (· ≤ groupTolerance) then clusters.dropLast ++ [cluster ++ [row]]
    else clusters ++ [[row]]

/-- Dated rows in time order, chained within the tolerance; each undated row alone. -/
def clusterByTime (rows : List ActivityRow) : List (List ActivityRow) :=
  let dated := sortOn (fun r => timeKey r.executedAt) (rows.filter fun r => r.executedAt.isSome)
  let undated := rows.filter fun r => r.executedAt.isNone
  dated.foldl addToClusters [] ++ undated.map fun row => [row]

/-! ## Routing a cluster -/

/-- The open groups, each with what is left of its nets. -/
abbrev Remaining := List (OpenGroup × Dict String ℚ)

/-- Whether a net is drawn down by a row of the given signed change: a settlement (no change
given) takes any net, a trade an opposite one. -/
def offsets (net : ℚ) (delta : Option ℚ) : Bool :=
  net ≠ 0 && delta.all fun delta => net * delta < 0

/-- Consume a closing quantity against every open group it offsets, in order; the first of them
carries the row. -/
def drawDown (sid : String) (delta : Option ℚ) : ℚ → Remaining → Option OpenGroup × Remaining
  | _, [] => (none, [])
  | left, (g, nets) :: remaining =>
    let net := (nets.get? sid).getD 0
    if offsets net delta then
      let take := min left |net|
      let drawn := (g, nets.set sid (if 0 < net then net - take else net + take))
      if left - take ≤ 0 then (some g, drawn :: remaining)
      else (some g, drawn :: (drawDown sid delta (left - take) remaining).2)
    else
      let r := drawDown sid delta left remaining
      (r.1, (g, nets) :: r.2)

/-- The group a row is routed to, and the nets that remain. -/
def routeRow (openGroups : List OpenGroup) (remaining : Remaining) (row : TxnRow) :
    Option OpenGroup × Remaining :=
  match row.securityId with
  | none => (none, remaining)
  | some sid =>
    if row.isClosing then
      let delta := if truthy row.action then some row.actionDelta else none
      let r := drawDown sid delta row.absQuantity remaining
      match r.1 with
      | some group => (some group, r.2)
      | none => (openGroups.find? fun g => g.securityIds.contains sid, r.2)
    else if isBareAction row.action then
      drawDown sid (some row.actionDelta) row.absQuantity remaining
    else (none, remaining)

/-- The closing rows of a cluster under the groups they close, and the rows left over. -/
structure Routing where
  buckets : List (OpenGroup × List ActivityRow) := []
  rest : List ActivityRow := []

/-- Append a row to the bucket of a group. -/
def addToBucket (buckets : List (OpenGroup × List ActivityRow)) (group : OpenGroup)
    (row : ActivityRow) : List (OpenGroup × List ActivityRow) :=
  if buckets.any fun b => b.1.pk = group.pk then
    buckets.map fun b => if b.1.pk = group.pk then (b.1, b.2 ++ [row]) else b
  else buckets ++ [(group, [row])]

/-- Route one row of a cluster. -/
def routeStep (openGroups : List OpenGroup) (w : Remaining × Routing) (row : ActivityRow) :
    Remaining × Routing :=
  let r := routeRow openGroups w.1 row.toTxnRow
  match r.1 with
  | some group => (r.2, { w.2 with buckets := addToBucket w.2.buckets group row })
  | none => (r.2, { w.2 with rest := w.2.rest ++ [row] })

/-- Split a cluster into closing buckets for the open groups and the rest, which opens a new
group. -/
def routeCluster (openGroups : List OpenGroup) (cluster : List ActivityRow) : Routing :=
  (cluster.foldl (routeStep openGroups)
    (openGroups.map fun g => (g, netQuantities g.rows), {})).2

end TtLedger
