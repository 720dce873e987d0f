import CaptureIngest.Layout.V30.Groups

/-!
# v30 records of transactions

One record for each query and its answer: DNS, HTTP, SMB and databases.
-/

namespace CaptureIngest.Layout.V30

/-- DNS queries. -/
def dns : List Field :=
  flowHeader ++ endpoints
  ++ [.required "application" .u32,
      .optional "protostack" .string,
      (Field.required "_hardcoded_one_facepalm" .u8).noted "Always 1",
      .required "query_name" .string,
      .required "query_type" .u16,
      .required "query_class" .u16,
      .required "error_code" .u8,
      .counter "error_count",
      .required "answer_type" .u16,
      .required "answer_class" .u16,
      .optional "capture_file" .string,
      .optional "connection_uuid" .string]
  ++ sides (fun s => .bytes ("traffic_bytes_" ++ s) .u64)
  ++ sides (fun s => .counter ("traffic_packets_" ++ s))
  ++ serverResponseTime

/-- HTTP requests. Transfer times are kept as sums without their counts. -/
def http : List Field :=
  flowHeader ++ endpoints ++ ports
  ++ [.optional "connection_uuid" .string,
      .required "id" .string,
      .required "parent_id" .string,
      .optional "referrer_id" .string,
      .required "deep_inspect" .bool,
      .required "contributed" .bool,
      .required "timeouted" .bool,
      .optional "host" .string,
      .optional "user_agent" .string,
      .required "url" .string,
      .optional "server" .string,
      .required "compressed" .bool,
      .required "chunked_encoding" .bool,
      .required "ajax" .bool,
      .ipv4 "ip4_orig_client",
      .ipv6 "ip6_orig_client",
      (Field.counter "page_count").noted "0 or 1 iff a page",
      (Field.required "_hardcoded_one_facepalm" .bool).noted "Always true",
      .microsSum "query_begin",
      .microsSum "query_end",
      .required "query_method" .u8,
      .bytes "query_headers" .u32,
      .bytes "query_payload" .u32,
      .required "query_pkts" .u32,
      .optional "query_content" .string,
      (Field.bytes "query_content_length" .u32).orNull,
      .counter "query_content_length_count",
      .optional "query_mime_type" .string,
      (Field.microsSum "resp_begin").orNull,
      (Field.microsSum "resp_end").orNull,
      .optional "resp_code" .u32,
      .bytes "resp_headers" .u32,
      .bytes "resp_payload" .u32,
      .required "resp_pkts" .u32,
      .optional "resp_content" .string,
      (Field.bytes "resp_content_length" .u32).orNull,
      .counter "resp_content_length_count",
      .optional "resp_mime_type" .string,
      (Field.bytes "tot_volume_query" .u32).orNull,
      (Field.bytes "tot_volume_response" .u32).orNull,
      (Field.counter "tot_count").noted "Page hit count",
      (Field.required "tot_errors" .u16).measured .count,
      (Field.required "tot_timeouts" .u16).measured .count,
      .microsSum "tot_begin",
      .microsSum "tot_end",
      .microsSum "tot_load_time",
      .microsSquareSum "tot_load_time_squared"]
  ++ serverResponseTime
  ++ [.microsSum "dtt_sum_client",
      .microsSquareSum "dtt_square_sum_client",
      .microsSum "dtt_sum_server",
      .microsSquareSum "dtt_square_sum_server",
      .required "application" .u32]

/-- SMB commands. -/
def smb : List Field :=
  flowHeader ++ endpoints ++ ports
  ++ [.required "version" .u32,
      .optional "protostack" .string,
      .optional "user" .string,
      .optional "domain" .string,
      .optional "file_id" .u128,
      .optional "path" .string,
      .optional "tree_id" .u32,
      .optional "tree" .string,
      .optional "status" .u32,
      .required "command" .u32,
      .optional "subcommand" .u32,
      .required "timeouted" .bool,
      .required "errors" .u32,
      .required "warnings" .u32,
      .required "queries" .u32,
      .optional "connection_uuid" .string,
      .required "query_begin" .u64,
      .required "query_end" .u64,
      .bytes "query_payload" .u32,
      .required "query_pkts" .u32,
      .optional "resp_begin" .u64,
      .optional "resp_end" .u64,
      .bytes "resp_payload" .u32,
      .required "resp_pkts" .u32,
      .bytes "meta_read_bytes" .u32,
      .bytes "meta_write_bytes" .u32,
      .bytes "query_write_bytes" .u32,
      .bytes "resp_read_bytes" .u32,
      .bytes "resp_write_bytes" .u32]
  ++ serverResponseTime ++ dataTransferTime
  ++ [.required "application" .u32]

/-- Database queries. -/
def sql : List Field :=
  flowHeader ++ endpoints ++ ports
  ++ [.required "query" .string,
      .required "timeouted" .bool,
      .optional "protostack" .string,
      .optional "user" .string,
      .optional "dbname" .string,
      .optional "error_sql_status" .string,
      .optional "error_code" .string,
      .optional "error_msg" .string,
      .required "is_error" .bool,
      (Field.required "_hardcoded_one_facepalm" .bool).noted "Always true",
      .optional "command" .u32,
      .optional "connection_uuid" .string,
      .required "query_begin" .u64,
      .required "query_end" .u64,
      .bytes "query_payload" .u32,
      .required "query_pkts" .u32,
      .optional "resp_begin" .u64,
      .optional "resp_end" .u64,
      .bytes "resp_payload" .u32,
      .required "resp_pkts" .u32]
  ++ serverResponseTime ++ dataTransferTime
  ++ [.required "application" .u32]

end CaptureIngest.Layout.V30
