import CaptureIngest.Layout

/-!
# Groups of fields in v30 records

The columns that v30 records of several protocols have in common. Most quantities are kept once
for each side of a flow, under names that end in `client` and `server`, and most durations as a
count, a sum and a sum of squares.
-/

namespace CaptureIngest.Layout.V30

/-- A field for the client and one for the server. -/
def sides (field : String → Field) : List Field :=
  [field "client", field "server"]

/-- A count, a sum and a sum of squares of durations; `side` ends the three names. -/
def durations (subject side : String) : List Field :=
  [.counter (subject ++ "_count" ++ side),
   .microsSum (subject ++ "_sum" ++ side),
   .microsSquareSum (subject ++ "_square_sum" ++ side)]

/-- As `durations`, with a count that may be missing although the sums may not. -/
def durationsOrNull (subject side : String) : List Field :=
  [(Field.counter (subject ++ "_count" ++ side)).orNull,
   .microsSum (subject ++ "_sum" ++ side),
   .microsSquareSum (subject ++ "_square_sum" ++ side)]

/-- The columns that every record begins with: who saw it, when, and where on the wire. -/
def flowHeader : List Field :=
  [.required "poller" .string,
   .captureTime captureBegin,
   .captureTime captureEnd,
   .optional "pkt_source_kind_client" .u8,
   .optional "pkt_source_name_client" .string,
   .optional "pkt_source_kind_server" .u8,
   .optional "pkt_source_name_server" .string]
  ++ sides (fun s => .optional ("vlan_" ++ s) .u32)
  ++ sides (fun s => .mac ("mac_" ++ s))
  ++ sides (fun s => .required ("zone_" ++ s) .u32)

/-- The addresses of both sides; of each pair exactly one is set. -/
def endpoints : List Field :=
  [.ipv4 "ip4_client", .ipv6 "ip6_client", .ipv4 "ip4_server", .ipv6 "ip6_server"]

/-- The address behind an address translation, where it is known. -/
def externalEndpoint : List Field :=
  [.ipv4 "ip4_external", .ipv6 "ip6_external"]

/-- The ports of both sides. -/
def ports : List Field :=
  sides fun s => .required ("port_" ++ s) .u16

/-- The service classes that both sides ask for. -/
def diffserv : List Field :=
  sides fun s => .required ("diffserv_" ++ s) .u8

/-- The largest packets of both sides. -/
def mtu : List Field :=
  sides fun s => (Field.bytes ("mtu_" ++ s) .u32).orNull

/-- The volume on the wire; its packet counters have no unit. -/
def traffic : List Field :=
  sides (fun s => .bytes ("traffic_bytes_" ++ s) .u64)
  ++ sides (fun s => .required ("traffic_packets_" ++ s) .u32)

/-- The time that the server takes to answer. -/
def serverResponseTime : List Field :=
  durations "rt" "_server"

/-- The time that each side takes to transfer its data. -/
def dataTransferTime : List Field :=
  durations "dtt" "_client" ++ durations "dtt" "_server"

end CaptureIngest.Layout.V30
