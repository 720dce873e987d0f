import CaptureIngest.Layout.V30.Groups

/-!
# v30 records of flows

One record a flow and interval, for TCP, UDP, ICMP, other protocols over IP, and traffic without
IP.
-/

namespace CaptureIngest.Layout.V30

/-- TCP flows. -/
def tcp : List Field :=
  flowHeader ++ endpoints ++ externalEndpoint ++ ports ++ diffserv
  ++ sides (fun s => .optional ("os_" ++ s) .u8)
  ++ mtu
  ++ [.optional "captured_pcap" .string,
      .required "application" .u32,
      .optional "protostack" .string,
      .optional "uuid" .string]
  ++ traffic
  ++ sides (fun s => .bytes ("payload_bytes_" ++ s) .u64)
  ++ sides (fun s => .required ("payload_packets_" ++ s) .u32)
  ++ sides (fun s => (Field.bytes ("retrans_traffic_bytes_" ++ s) .u64).orNull)
  ++ sides (fun s => (Field.bytes ("retrans_payload_bytes_" ++ s) .u64).orNull)
  ++ [(Field.counter "syn_count_client").orNull]
  ++ sides (fun s => (Field.counter ("fin_count_" ++ s)).orNull)
  ++ sides (fun s => (Field.counter ("rst_count_" ++ s)).orNull)
  ++ [.counter "timeout_count",
      (Field.counter "close_count").orNull]
  ++ sides (fun s => (Field.counter ("dupack_count_" ++ s)).orNull)
  ++ sides (fun s => (Field.counter ("zero_window_count_" ++ s)).orNull)
  ++ durationsOrNull "ct" ""
  ++ durationsOrNull "rt" "_server"
  ++ durationsOrNull "rtt" "_client" ++ durationsOrNull "rtt" "_server"
  ++ durationsOrNull "rd" "_client" ++ durationsOrNull "rd" "_server"
  ++ durationsOrNull "dtt" "_client" ++ durationsOrNull "dtt" "_server"
  ++ [.optional "dcerpc_uuid" .string]

/-- UDP flows. -/
def udp : List Field :=
  flowHeader ++ endpoints ++ externalEndpoint ++ ports ++ diffserv ++ mtu
  ++ [.required "application" .u32,
      .optional "protostack" .string]
  ++ traffic
  ++ sides (fun s => .bytes ("payload_bytes_" ++ s) .u64)
  ++ [.optional "dcerpc_uuid" .string]

/-- ICMP flows, with the endpoints that an error message quotes. -/
def icmp : List Field :=
  flowHeader ++ endpoints ++ externalEndpoint ++ diffserv ++ mtu
  ++ [.required "application" .u32,
      .optional "protostack" .string]
  ++ traffic
  ++ [.required "icmp_type" .u8,
      .required "icmp_code" .u8,
      .ipv4 "error_ip4_client",
      .ipv6 "error_ip6_client",
      .ipv4 "error_ip4_server",
      .ipv6 "error_ip6_server"]
  ++ sides (fun s => .optional ("error_port_" ++ s) .u16)
  ++ [.optional "error_ip_proto" .u8]
  ++ sides (fun s => .optional ("error_zone_" ++ s) .u32)

/-- Flows over IP that are neither TCP nor UDP nor ICMP. -/
def otherIp : List Field :=
  flowHeader ++ endpoints ++ diffserv ++ mtu
  ++ [.required "ip_protocol" .u8,
      .required "application" .u32,
      .optional "protostack" .string]
  ++ traffic

/-- Ethernet traffic without IP. -/
def nonIp : List Field :=
  flowHeader ++ mtu
  ++ [.required "eth_type" .u16,
      .required "application" .u32,
      .optional "protostack" .string]
  ++ traffic

end CaptureIngest.Layout.V30
