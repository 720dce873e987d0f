import CaptureIngest.Layout.V30.Groups

/-!
# v30 records of sessions

One record for each session or call: Citrix, with or without its channels, telephony over IP, and
TLS.
-/

namespace CaptureIngest.Layout.V30

/-- What a Citrix session is. -/
def sessionIdentity : List Field :=
  [.required "application" .u32,
   .optional "protostack" .string,
   .optional "connection_uuid" .string]

/-- Who a Citrix session belongs to. -/
def userContext : List Field :=
  [.optional "username" .string,
   .optional "domain" .string,
   .optional "citrix_application" .string]

/-- Citrix sessions, a record per channel. -/
def citrix : List Field :=
  flowHeader ++ endpoints ++ ports ++ sessionIdentity
  ++ [.optional "channel_id" .u8,
      .optional "channel" .u8]
  ++ sides (fun s => (Field.required ("pdus_" ++ s) .u32).measured .pdus)
  ++ sides (fun s => .required ("num_compressed_" ++ s) .u32)
  ++ sides (fun s => .bytes ("payloads_" ++ s) .u32)
  ++ serverResponseTime ++ dataTransferTime ++ userContext

/-- Citrix sessions as a whole. -/
def citrixChanless : List Field :=
  flowHeader ++ endpoints ++ ports ++ sessionIdentity
  ++ [.optional "module_name" .string,
      .required "encrypt_type" .u8]
  ++ sides (fun s => .required ("pdus_" ++ s) .u32)
  ++ sides (fun s => .required ("pdus_cgp_" ++ s) .u32)
  ++ sides (fun s => .required ("num_keep_alives_" ++ s) .u32)
  ++ sides (fun s => .bytes ("payloads_" ++ s) .u32)
  ++ serverResponseTime ++ dataTransferTime
  ++ durations "login_time" "" ++ durations "launch_time" ""
  ++ [.counter "num_aborts",
      .counter "num_timeouts"]
  ++ userContext

/-- One party of a call. Its MAC address, unlike those of the flow header, is always there. -/
def party (role : String) : List Field :=
  [.required ("id_" ++ role) .string,
   .required (role ++ "_mac") .u64,
   .ipv4 ("ip4_" ++ role),
   .ipv6 ("ip6_" ++ role),
   .required ("zone_" ++ role) .u32,
   .optional (role ++ "_codec") .string]

/-- A field for the caller and one for the callee. -/
def parties (field : String → Field) : List Field :=
  [field "caller", field "callee"]

/-- Calls. Media are measured for caller and callee instead of client and server. -/
def voip : List Field :=
  flowHeader ++ endpoints ++ ports
  ++ [.optional "capture_file" .string,
      .required "application" .u32,
      .optional "protostack" .string,
      .optional "connection_uuid" .string,
      .required "ip_protocol" .u8,
      .required "had_voice" .bool,
      .optional "call_direction_is_out" .bool,
      .required "last_call_state" .u8,
      .required "is_starting" .bool,
      .required "is_finished" .bool,
      (Field.required "_hardcoded_0" .bool).noted "Always false",
      .required "last_error" .u32,
      .required "call_id" .string,
      .optional "rtp_duration" .u64]
  ++ party "caller" ++ party "callee"
  ++ sides (fun s => .bytes ("sign_bytes_" ++ s) .u32)
  ++ sides (fun s => .counter ("sign_count_" ++ s))
  ++ sides (fun s => .bytes ("sign_payload_" ++ s) .u32)
  ++ parties (fun s => .bytes ("rtp_rtcp_bytes_" ++ s) .u32)
  ++ parties (fun s => .counter ("rtp_rtcp_count_" ++ s))
  ++ parties (fun s => .bytes ("rtp_rtcp_payload_" ++ s) .u32)
  ++ serverResponseTime
  ++ durations "jitter" "_caller" ++ durations "jitter" "_callee"
  ++ durations "rtt" "_caller" ++ durations "rtt" "_callee"
  ++ [.counter "loss_callee2caller_alt_count",
      .counter "loss_caller2callee_alt_count"]
  ++ durations "sign_rtt" "_client" ++ durations "sign_rtt" "_server"
  ++ durations "sign_rd" "_client" ++ durations "sign_rd" "_server"

/-- TLS sessions. -/
def tls : List Field :=
  flowHeader ++ endpoints ++ ports
  ++ [.required "application" .u32,
      .optional "protostack" .string,
      .optional "connection_uuid" .string,
      .optional "cipher_suite" .u32,
      .optional "client_common_name" .string,
      .optional "server_common_name" .string,
      .optional "server_name" .string,
      (Field.optional "client_not_after" .u64).measured .relativeSeconds,
      (Field.optional "server_not_after" .u64).measured .relativeSeconds,
      (Field.required "resumed" .u32).noted "Actually a bool",
      (Field.required "decrypted" .u32).noted "Actually a bool",
      .required "version" .u32,
      .optional "client_signature" .string,
      .optional "server_signature" .string,
      .optional "client_serial_number" .string,
      .optional "server_serial_number" .string,
      .optional "client_type" .u32,
      .optional "server_type" .u32,
      .optional "client_bits" .u32,
      .optional "server_bits" .u32]
  ++ sides (fun s => (Field.required ("meta_" ++ s) .u32).measured .pdus)
  ++ sides (fun s => .required ("data_" ++ s) .u32)
  ++ [.required "alert_types" .u32,
      .required "alert_errors" .u32]
  ++ sides (fun s => .bytes ("traffic_bytes_" ++ s) .u64)
  ++ sides (fun s => .bytes ("payload_bytes_" ++ s) .u64)
  ++ dataTransferTime ++ serverResponseTime
  ++ durationsOrNull "ct" ""

end CaptureIngest.Layout.V30
